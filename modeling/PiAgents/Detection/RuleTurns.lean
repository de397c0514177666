import PiAgents.Detection.RuleSteps

/-! The evaluations of the rule that turn the incident of a device: between two of them the state
of the incident stays, and agrees with the evidence last seen. -/

namespace PiAgents.Detection

/-- What a transition says about its incident. -/
structure Content where
  incidentId : String
  revision : Nat
  status : TransitionStatus
  severity : Int32
  episodeStartMs : Int64
  overThreshold : List Bool
  deriving DecidableEq

def Transition.content (t : Transition) : Content :=
  ⟨t.incidentId, t.revision, t.status, t.severity, t.episodeStartMs, t.overThreshold⟩

/-- The state of the incident, without the evidence and the clocks. -/
def RuleState.core (s : RuleState) : RuleState :=
  { s with shortView := none, longView := none, clockMs := 0, clockWallMs := 0 }

def RuleState.dated (s : RuleState) (clockMs clockWallMs : Int64) : RuleState :=
  { s with clockMs, clockWallMs }

/-- The state after its incident is resolved. -/
def RuleState.closed (s : RuleState) (clockMs : Int64) : RuleState :=
  { s with revision := s.revision + 1, status := .resolved, resolvedAtMs := clockMs }

namespace PortScanRule

variable (rule : PortScanRule)

/-- An evaluation at this clock changes the incident. -/
def Turns (s : RuleState) (clockMs : Int64) : Prop :=
  if s.status = .active then
    rule.Settled s clockMs ∨ rule.Changed s ∨ rule.clearSince s clockMs ≠ s.clearSinceMs
  else rule.overMask s ≠ 0

instance (s : RuleState) (clockMs : Int64) : Decidable (rule.Turns s clockMs) :=
  inferInstanceAs (Decidable (ite _ _ _))

theorem evaluate_still (s : RuleState) (clockMs ingestMs nowMs : Int64)
    (still : ¬ rule.Turns s clockMs) : rule.evaluate s clockMs ingestMs nowMs = (s, []) := by
  unfold Turns at still
  split at still
  · next active =>
      rw [not_or, not_or, not_not] at still
      obtain ⟨unsettled, same, since⟩ := still
      rw [rule.evaluate_unchanged s clockMs ingestMs nowMs active unsettled same, kept, since]
  · next inactive =>
      exact rule.evaluate_quiet s clockMs ingestMs nowMs inactive (not_not.mp still)

/-- The clocks that a state keeps do not enter an evaluation at a given clock. -/
theorem evaluate_dated (s : RuleState) (clockMs clockWallMs nowClockMs ingestMs nowMs
    otherIngestMs otherNowMs : Int64) :
    (rule.evaluate (s.dated clockMs clockWallMs) nowClockMs ingestMs nowMs).1 =
        (rule.evaluate s nowClockMs otherIngestMs otherNowMs).1.dated clockMs clockWallMs ∧
      (rule.evaluate (s.dated clockMs clockWallMs) nowClockMs ingestMs nowMs).2.map
          Transition.content =
        (rule.evaluate s nowClockMs otherIngestMs otherNowMs).2.map Transition.content := by
  generalize same : s.dated clockMs clockWallMs = t
  by_cases active : s.status = .active
  · have activeToo : t.status = .active := same ▸ active
    by_cases settled : rule.Settled s nowClockMs
    · have settledToo : rule.Settled t nowClockMs := same ▸ settled
      rw [rule.evaluate_resolve s _ _ _ active settled,
        rule.evaluate_resolve t _ _ _ activeToo settledToo, ← same]
      exact ⟨rfl, rfl⟩
    · have settledToo : ¬ rule.Settled t nowClockMs := same ▸ settled
      by_cases changed : rule.Changed s
      · have changedToo : rule.Changed t := same ▸ changed
        rw [rule.evaluate_update s _ _ _ active settled changed,
          rule.evaluate_update t _ _ _ activeToo settledToo changedToo, ← same]
        exact ⟨rfl, rfl⟩
      · have changedToo : ¬ rule.Changed t := same ▸ changed
        rw [rule.evaluate_unchanged s _ _ _ active settled changed,
          rule.evaluate_unchanged t _ _ _ activeToo settledToo changedToo, ← same]
        exact ⟨rfl, rfl⟩
  · have activeToo : t.status ≠ .active := same ▸ active
    by_cases quiet : rule.overMask s = 0
    · have quietToo : rule.overMask t = 0 := same ▸ quiet
      rw [rule.evaluate_quiet s _ _ _ active quiet,
        rule.evaluate_quiet t _ _ _ activeToo quietToo, ← same]
      exact ⟨rfl, rfl⟩
    · have quietToo : rule.overMask t ≠ 0 := same ▸ quiet
      by_cases cooling : rule.Cooling s nowClockMs
      · have coolingToo : rule.Cooling t nowClockMs := same ▸ cooling
        rw [rule.evaluate_reopen s _ _ _ quiet cooling,
          rule.evaluate_reopen t _ _ _ quietToo coolingToo, ← same]
        exact ⟨rfl, rfl⟩
      · have coolingToo : ¬ rule.Cooling t nowClockMs := same ▸ cooling
        rw [rule.evaluate_open s _ _ _ active quiet cooling,
          rule.evaluate_open t _ _ _ activeToo quietToo coolingToo, ← same]
        exact ⟨rfl, rfl⟩

/-! Between evaluations the state agrees with the evidence it was last evaluated on. -/

structure Stable (s : RuleState) : Prop where
  quiet : s.status ≠ .active → rule.overMask s = 0
  reported : s.status = .active → ¬ rule.Changed s
  clearing : s.status = .active → (rule.clear s = true ↔ s.clearSinceMs ≠ Int64.minValue)

theorem new_stable (valid : rule.config.Valid) : rule.Stable .new where
  quiet _ := rule.new_overMask valid.bounded
  reported active := RuleStatus.noConfusion active
  clearing active := RuleStatus.noConfusion active

theorem clearSince_set (s : RuleState) (clockMs : Int64) (positive : clockMs ≠ Int64.minValue) :
    rule.clear s = true ↔ rule.clearSince s clockMs ≠ Int64.minValue := by
  unfold clearSince
  by_cases clear : rule.clear s = true
  · rw [if_pos clear]
    refine iff_of_true clear ?_
    split
    · exact positive
    · next since => exact since
  · rw [if_neg clear]
    exact iff_of_false clear (not_not.mpr rfl)

theorem evaluate_stable (valid : rule.config.Valid) (s : RuleState)
    (clockMs ingestMs nowMs : Int64) (positive : clockMs ≠ Int64.minValue) :
    rule.Stable (rule.evaluate s clockMs ingestMs nowMs).1 := by
  by_cases active : s.status = .active
  · by_cases settled : rule.Settled s clockMs
    · rw [rule.evaluate_resolve s _ _ _ active settled]
      exact ⟨fun _ => rule.clear_overMask s valid.bounded settled.1, RuleStatus.noConfusion,
        RuleStatus.noConfusion⟩
    · by_cases changed : rule.Changed s
      · rw [rule.evaluate_update s _ _ _ active settled changed]
        exact ⟨fun inactive => absurd active inactive,
          fun _ differs => differs.elim (absurd rfl) (absurd rfl),
          fun _ => rule.clearSince_set s clockMs positive⟩
      · rw [rule.evaluate_unchanged s _ _ _ active settled changed]
        exact ⟨fun inactive => absurd active inactive, fun _ => changed,
          fun _ => rule.clearSince_set s clockMs positive⟩
  · by_cases quiet : rule.overMask s = 0
    · rw [rule.evaluate_quiet s _ _ _ active quiet]
      exact ⟨fun _ => quiet, fun held => absurd held active, fun held => absurd held active⟩
    · have unclear : ¬ rule.clear s = true := fun clear => quiet (rule.clear_overMask s valid.bounded clear)
      by_cases cooling : rule.Cooling s clockMs
      · rw [rule.evaluate_reopen s _ _ _ quiet cooling]
        exact ⟨fun inactive => absurd rfl inactive,
          fun _ differs => differs.elim (absurd rfl) (absurd rfl),
          fun _ => iff_of_false unclear (not_not.mpr rfl)⟩
      · rw [rule.evaluate_open s _ _ _ active quiet cooling]
        exact ⟨fun inactive => absurd rfl inactive,
          fun _ differs => differs.elim (absurd rfl) (absurd rfl),
          fun _ => iff_of_false unclear (not_not.mpr rfl)⟩

theorem Stable.clearSince {s : RuleState} (stable : rule.Stable s) (active : s.status = .active)
    (clockMs : Int64) : rule.clearSince s clockMs = s.clearSinceMs := by
  unfold PortScanRule.clearSince
  by_cases clear : rule.clear s = true
  · rw [if_pos clear, if_neg ((stable.clearing active).mp clear)]
  · rw [if_neg clear]
    exact (not_not.mp (mt (stable.clearing active).mpr clear)).symm

/-- The clock alone turns an incident by resolving it. -/
theorem Stable.turns_iff {s : RuleState} (stable : rule.Stable s) (clockMs : Int64) :
    rule.Turns s clockMs ↔ s.status = .active ∧ rule.Settled s clockMs := by
  unfold Turns
  split
  · next active =>
      rw [stable.clearSince rule active]
      simp [active, stable.reported active]
  · next inactive => simp [inactive, stable.quiet inactive]

/-- What a transition of this status says about the incident of a state. -/
def contentOf (s : RuleState) (status : TransitionStatus) : Content :=
  ⟨s.incidentId, s.revision, status, s.severity, s.episodeStartMs,
    (List.range rule.config.openThresholds.length).map
      fun h => s.overMask &&& 1 <<< Int32.ofNat h ≠ 0⟩

theorem Stable.evaluate_closes {s : RuleState} (stable : rule.Stable s)
    (active : s.status = .active) (clockMs ingestMs nowMs : Int64)
    (settled : rule.Settled s clockMs) :
    (rule.evaluate s clockMs ingestMs nowMs).1 = s.closed clockMs ∧
      (rule.evaluate s clockMs ingestMs nowMs).2.map Transition.content =
        [rule.contentOf (s.closed clockMs) .resolve] := by
  have reported := stable.reported active
  rw [Changed, not_or, not_not, not_not] at reported
  have resolved : rule.resolved s clockMs = s.closed clockMs := by
    rw [PortScanRule.resolved, stable.clearSince rule active, reported.1, reported.2]
    rfl
  rw [rule.evaluate_resolve s _ _ _ active settled, resolved]
  exact ⟨rfl, rfl⟩

end PortScanRule

end PiAgents.Detection
