import PiAgents.Detection.PortScanRule

/-! What one evaluation of the port-scan rule can do to a rule state. -/

namespace PiAgents.Detection

private theorem one_shift_ne_zero (h : Int32) : (1 : Int32) <<< h ≠ 0 := by
  intro zero
  have bits := congrArg Int32.toBitVec zero
  rw [Int32.toBitVec_shiftLeft] at bits
  have amount : (h.toBitVec.smod 32).toInt = h.toBitVec.toInt.fmod 32 := BitVec.toInt_smod
  have low : 0 ≤ h.toBitVec.toInt.fmod 32 := Int.fmod_nonneg_of_pos _ (by decide)
  have high : h.toBitVec.toInt.fmod 32 < 32 := Int.fmod_lt_of_pos _ (by decide)
  have small : (h.toBitVec.smod 32).toNat < 32 := by
    rw [BitVec.toInt_eq_toNat_cond] at amount
    split at amount
    · omega
    · omega
  have bit := congrArg (fun word => BitVec.getLsbD word (h.toBitVec.smod 32).toNat) bits
  simp at bit
  exact absurd small (Nat.not_lt.mpr bit)

theorem RuleState.set_views_loop (entries : List (View × Nat)) (s : RuleState) :
    ∃ short long, entries.foldl (fun s entry => s.setView entry.2 entry.1) s =
      { s with shortView := short, longView := long } := by
  induction entries generalizing s with
  | nil => exact ⟨s.shortView, s.longView, rfl⟩
  | cons entry entries ih =>
      obtain ⟨short, long, rest⟩ := ih (s.setView entry.2 entry.1)
      refine ⟨short, long, ?_⟩
      rw [List.foldl_cons, rest, RuleState.setView]
      split
      · rfl
      · rfl

namespace PortScanRule

theorem received_fields (s : RuleState) (set : ViewSet) (nowMs : Int64) :
    ∃ short long clockMs clockWallMs, s.clockMs ≤ clockMs ∧ received s set nowMs =
      { s with
        shortView := short
        longView := long
        clockMs := clockMs
        clockWallMs := clockWallMs } := by
  obtain ⟨short, long, views⟩ := RuleState.set_views_loop (set.views.take 2).zipIdx s
  rw [received, RuleState.setViews, views]
  split
  · next newer => exact ⟨short, long, set.windowEndMs, nowMs, Int64.le_of_lt newer, rfl⟩
  · exact ⟨short, long, s.clockMs, s.clockWallMs, Int64.le_refl _, rfl⟩

variable (rule : PortScanRule)

private theorem mask_loop_eq_zero (s : RuleState) (entries : List (Float × Nat)) (mask : Int32) :
    entries.foldl (fun mask entry => if entry.1 ≤ s.value entry.2
        then mask ||| 1 <<< Int32.ofNat entry.2 else mask) mask = 0 ↔
      mask = 0 ∧ ∀ entry ∈ entries, ¬ entry.1 ≤ s.value entry.2 := by
  induction entries generalizing mask with
  | nil => simp
  | cons entry entries ih =>
      rw [List.foldl_cons, ih, List.forall_mem_cons]
      split
      · next reached =>
          have set := one_shift_ne_zero (Int32.ofNat entry.2)
          simp [reached, set]
      · next under => simp [under]

theorem overMask_eq_zero (s : RuleState) :
    rule.overMask s = 0 ↔
      ∀ entry ∈ rule.config.openThresholds.zipIdx, ¬ entry.1 ≤ s.value entry.2 := by
  rw [overMask, mask_loop_eq_zero]
  exact and_iff_right rfl

theorem clear_overMask (s : RuleState) (bounded : rule.config.Bounded) (clear : rule.clear s) :
    rule.overMask s = 0 := by
  rw [overMask_eq_zero]
  intro entry member reached
  rw [PortScanRule.clear, List.all_eq_true] at clear
  have below := of_decide_eq_true (clear entry member)
  have positive := bounded.thresholds entry.1 (List.fst_mem_of_mem_zipIdx member)
  exact below (Binary64.mul_lt_of_lt_one _ _ _ bounded.fraction.1 bounded.fraction.2 positive reached)

theorem new_overMask (bounded : rule.config.Bounded) : rule.overMask .new = 0 := by
  rw [overMask_eq_zero]
  intro entry member reached
  have positive := bounded.thresholds entry.1 (List.fst_mem_of_mem_zipIdx member)
  have unseen : RuleState.new.value entry.2 = 0 := by
    simp only [RuleState.value, RuleState.view, RuleState.new, ite_self]
    rfl
  rw [unseen] at reached
  exact Binary64.not_le_zero_of_pos entry.1 positive reached

/-! The states that an evaluation leaves. -/

def opened (s : RuleState) (clockMs : Int64) : RuleState :=
  { s with
    status := .active
    incidentId := rule.incidentId s.deviceKey clockMs
    revision := 1
    episodeStartMs := clockMs
    overMask := rule.overMask s
    severity := rule.severity s
    clearSinceMs := Int64.minValue }

def reopened (s : RuleState) : RuleState :=
  { s with
    status := .active
    revision := s.revision + 1
    overMask := rule.overMask s
    severity := rule.severity s
    clearSinceMs := Int64.minValue }

def resolved (s : RuleState) (clockMs : Int64) : RuleState :=
  { s with
    status := .resolved
    revision := s.revision + 1
    overMask := rule.overMask s
    severity := rule.severity s
    clearSinceMs := rule.clearSince s clockMs
    resolvedAtMs := clockMs }

def updated (s : RuleState) (clockMs : Int64) : RuleState :=
  { s with
    revision := s.revision + 1
    overMask := rule.overMask s
    severity := rule.severity s
    clearSinceMs := rule.clearSince s clockMs }

def kept (s : RuleState) (clockMs : Int64) : RuleState :=
  { s with clearSinceMs := rule.clearSince s clockMs }

/-- The clear condition has held for the hold time. -/
def Settled (s : RuleState) (clockMs : Int64) : Prop :=
  rule.clear s ∧ rule.config.holdMs ≤ clockMs - rule.clearSince s clockMs

/-- The over-threshold set or the severity is not the reported one. -/
def Changed (s : RuleState) : Prop :=
  rule.overMask s ≠ s.overMask ∨ rule.severity s ≠ s.severity

instance (s : RuleState) (clockMs : Int64) : Decidable (rule.Settled s clockMs) :=
  inferInstanceAs (Decidable (_ ∧ _))

instance (s : RuleState) : Decidable (rule.Changed s) :=
  inferInstanceAs (Decidable (_ ∨ _))

/-- The cooldown after the last resolve is not over. -/
def Cooling (s : RuleState) (clockMs : Int64) : Prop :=
  s.status = .resolved ∧ clockMs - s.resolvedAtMs < rule.config.cooldownMs

instance (s : RuleState) (clockMs : Int64) : Decidable (rule.Cooling s clockMs) :=
  inferInstanceAs (Decidable (_ ∧ _))

section evaluate

variable (s : RuleState) (clockMs ingestMs nowMs : Int64)

theorem activate_eq : rule.activate s (rule.overMask s) clockMs =
    if rule.Cooling s clockMs then (rule.reopened s, .reopen)
    else (rule.opened s clockMs, .open) := by
  by_cases cooling : rule.Cooling s clockMs
  · have branch : s.status = .resolved ∧ clockMs - s.resolvedAtMs < rule.config.cooldownMs :=
      cooling
    rw [if_pos cooling, activate, if_pos branch]
    rfl
  · have branch : ¬ (s.status = .resolved ∧ clockMs - s.resolvedAtMs < rule.config.cooldownMs) :=
      cooling
    rw [if_neg cooling, activate, if_neg branch]
    rfl

theorem evaluate_eq : rule.evaluate s clockMs ingestMs nowMs =
    if s.status ≠ .active then
      if rule.overMask s = 0 then (s, [])
      else if rule.Cooling s clockMs then
        (rule.reopened s, [rule.transition (rule.reopened s) .reopen clockMs ingestMs nowMs])
      else (rule.opened s clockMs,
        [rule.transition (rule.opened s clockMs) .open clockMs ingestMs nowMs])
    else if rule.Settled s clockMs then (rule.resolved s clockMs,
      [rule.transition (rule.resolved s clockMs) .resolve clockMs ingestMs nowMs])
    else if rule.Changed s then (rule.updated s clockMs,
      [rule.transition (rule.updated s clockMs) .update clockMs ingestMs nowMs])
    else (rule.kept s clockMs, []) := by
  rw [evaluate, activate_eq]
  by_cases cooling : rule.Cooling s clockMs
  · rw [if_pos cooling, if_pos cooling]
    rfl
  · rw [if_neg cooling, if_neg cooling]
    rfl

theorem evaluate_keeps :
    (rule.evaluate s clockMs ingestMs nowMs).1.shortView = s.shortView ∧
      (rule.evaluate s clockMs ingestMs nowMs).1.longView = s.longView ∧
      (rule.evaluate s clockMs ingestMs nowMs).1.clockMs = s.clockMs := by
  rw [rule.evaluate_eq]
  split
  · split
    · exact ⟨rfl, rfl, rfl⟩
    · split
      · exact ⟨rfl, rfl, rfl⟩
      · exact ⟨rfl, rfl, rfl⟩
  · split
    · exact ⟨rfl, rfl, rfl⟩
    · split
      · exact ⟨rfl, rfl, rfl⟩
      · exact ⟨rfl, rfl, rfl⟩

theorem evaluate_quiet (inactive : s.status ≠ .active) (quiet : rule.overMask s = 0) :
    rule.evaluate s clockMs ingestMs nowMs = (s, []) := by
  rw [evaluate_eq, if_pos inactive, if_pos quiet]

theorem evaluate_open (inactive : s.status ≠ .active) (reached : rule.overMask s ≠ 0)
    (cooled : ¬ rule.Cooling s clockMs) :
    rule.evaluate s clockMs ingestMs nowMs = (rule.opened s clockMs,
      [rule.transition (rule.opened s clockMs) .open clockMs ingestMs nowMs]) := by
  rw [evaluate_eq, if_pos inactive, if_neg reached, if_neg cooled]

theorem evaluate_reopen (reached : rule.overMask s ≠ 0) (cooling : rule.Cooling s clockMs) :
    rule.evaluate s clockMs ingestMs nowMs = (rule.reopened s,
      [rule.transition (rule.reopened s) .reopen clockMs ingestMs nowMs]) := by
  have inactive : s.status ≠ .active := by
    rw [cooling.1]
    exact RuleStatus.noConfusion
  rw [evaluate_eq, if_pos inactive, if_neg reached, if_pos cooling]

theorem evaluate_resolve (active : s.status = .active) (settled : rule.Settled s clockMs) :
    rule.evaluate s clockMs ingestMs nowMs = (rule.resolved s clockMs,
      [rule.transition (rule.resolved s clockMs) .resolve clockMs ingestMs nowMs]) := by
  rw [evaluate_eq, if_neg (not_not.mpr active), if_pos settled]

theorem evaluate_update (active : s.status = .active) (unsettled : ¬ rule.Settled s clockMs)
    (changed : rule.Changed s) :
    rule.evaluate s clockMs ingestMs nowMs = (rule.updated s clockMs,
      [rule.transition (rule.updated s clockMs) .update clockMs ingestMs nowMs]) := by
  rw [evaluate_eq, if_neg (not_not.mpr active), if_neg unsettled, if_pos changed]

theorem evaluate_unchanged (active : s.status = .active) (unsettled : ¬ rule.Settled s clockMs)
    (same : ¬ rule.Changed s) :
    rule.evaluate s clockMs ingestMs nowMs = (rule.kept s clockMs, []) := by
  rw [evaluate_eq, if_neg (not_not.mpr active), if_neg unsettled, if_neg same]

end evaluate

end PortScanRule

end PiAgents.Detection
