import PiAgents.Detection.IncidentWord

/-! The transitions of one rule state against its current evaluation: an active incident was last
reported as it is now, and no update repeats the transition before it. -/

namespace PiAgents.Detection

private theorem shift_amount (h : Nat) : ((Int32.ofNat h).toBitVec.smod 32).toNat = h % 32 := by
  have amount : ((Int32.ofNat h).toBitVec.smod 32).toInt = (Int32.ofNat h).toBitVec.toInt.fmod 32 :=
    BitVec.toInt_smod
  have word : (Int32.ofNat h).toBitVec.toInt = (h : Int).bmod (2 ^ 32) := BitVec.toInt_ofNat' ..
  have positive : (32 : Int) ≥ 0 := by decide
  rw [word, Int.fmod_eq_emod_of_nonneg _ positive] at amount
  have low : ((h : Int).bmod (2 ^ 32)) % 32 = (h : Int) % 32 := by
    rw [Int.bmod_def]
    split
    · omega
    · omega
  rw [low] at amount
  have fits := ((Int32.ofNat h).toBitVec.smod 32).isLt
  rw [BitVec.toInt_eq_toNat_cond] at amount
  split at amount
  · omega
  · omega

private theorem shift_bit (h i : Nat) (small : i < 32) :
    ((1 : Int32) <<< Int32.ofNat h).toBitVec.getLsbD i = decide (i = h % 32) := by
  rw [Int32.toBitVec_shiftLeft, BitVec.shiftLeft_eq', shift_amount]
  have one : (1 : Int32).toBitVec = 1#32 := rfl
  rw [one, BitVec.getLsbD_shiftLeft, BitVec.getLsbD_one]
  by_cases same : i = h % 32
  · simp [same]
    omega
  · have differs : i < h % 32 ∨ i - h % 32 ≠ 0 := by omega
    rcases differs with below | above
    · simp [same, below]
    · simp [same, above]

theorem flag_iff (mask : Int32) (h : Nat) :
    mask &&& 1 <<< Int32.ofNat h ≠ 0 ↔ mask.toBitVec.getLsbD (h % 32) = true := by
  have low : h % 32 < 32 := Nat.mod_lt _ (by decide)
  rw [← not_iff_not, not_not]
  constructor
  · intro zero bit
    have bits := congrArg (fun word => word.toBitVec.getLsbD (h % 32)) zero
    simp only [Int32.toBitVec_and, BitVec.getLsbD_and, bit, shift_bit h _ low] at bits
    simp at bits
  · intro bit
    apply Int32.toBitVec_inj.mp
    apply BitVec.eq_of_getLsbD_eq
    intro i small
    rw [Int32.toBitVec_and, BitVec.getLsbD_and, shift_bit h i small]
    by_cases same : i = h % 32
    · rw [same]
      simp [bit]
    · simp [same]

namespace PortScanRule

variable (rule : PortScanRule)

private theorem mask_loop_bit (s : RuleState) (i : Nat) (small : i < 32)
    (entries : List (Float × Nat))
    (mask : Int32) :
    (entries.foldl (fun mask entry => if entry.1 ≤ s.value entry.2
        then mask ||| 1 <<< Int32.ofNat entry.2 else mask) mask).toBitVec.getLsbD i = true ↔
      mask.toBitVec.getLsbD i = true ∨
        ∃ entry ∈ entries, entry.1 ≤ s.value entry.2 ∧ i = entry.2 % 32 := by
  induction entries generalizing mask with
  | nil => simp
  | cons entry entries ih =>
      simp only [List.foldl_cons, ih, List.mem_cons, exists_eq_or_imp]
      split
      · next reached =>
          rw [Int32.toBitVec_or, BitVec.getLsbD_or, shift_bit _ i small, Bool.or_eq_true,
            decide_eq_true_eq, or_assoc]
          simp [reached]
      · next under => simp [under]

theorem overMask_bit (s : RuleState) (i : Nat) (small : i < 32) :
    (rule.overMask s).toBitVec.getLsbD i = true ↔
      ∃ entry ∈ rule.config.openThresholds.zipIdx, entry.1 ≤ s.value entry.2 ∧
        i = entry.2 % 32 := by
  rw [overMask, mask_loop_bit s i small]
  simp

/-- Whether each horizon is at or over its open threshold. -/
def overHorizons (s : RuleState) : List Bool :=
  rule.config.openThresholds.zipIdx.map fun entry => entry.1 ≤ s.value entry.2

/-- The flags of a transition whose state has this mask. -/
def flags (mask : Int32) : List Bool :=
  (List.range rule.config.openThresholds.length).map fun h => mask &&& 1 <<< Int32.ofNat h ≠ 0

theorem flags_overMask (s : RuleState) (horizons : rule.config.openThresholds.length ≤ 32) :
    rule.flags (rule.overMask s) = rule.overHorizons s := by
  apply List.ext_getElem
  · simp [flags, overHorizons]
  · intro h here there
    simp only [flags, List.length_map, List.length_range] at here
    have low : h % 32 < 32 := Nat.mod_lt _ (by decide)
    simp only [flags, overHorizons, List.getElem_map, List.getElem_range, List.getElem_zipIdx,
      flag_iff, rule.overMask_bit s _ low, Nat.zero_add, decide_eq_decide]
    constructor
    · rintro ⟨⟨threshold, other⟩, member, reached, same⟩
      obtain ⟨-, bound, isThreshold⟩ := List.mem_zipIdx member
      have equal : other = h := by omega
      subst equal
      simp only [isThreshold, Nat.sub_zero] at reached
      exact reached
    · intro reached
      refine ⟨(rule.config.openThresholds[h], h), ?_, reached, rfl⟩
      exact List.mk_mem_zipIdx_iff_getElem?.mpr (List.getElem?_eq_getElem here)

theorem flags_injective (s u : RuleState)
    (same : rule.flags (rule.overMask s) = rule.flags (rule.overMask u)) :
    rule.overMask s = rule.overMask u := by
  have flag : ∀ h < rule.config.openThresholds.length,
      ((rule.overMask s).toBitVec.getLsbD (h % 32) = true ↔
        (rule.overMask u).toBitVec.getLsbD (h % 32) = true) := by
    intro h bound
    have one := congrArg (fun flags : List Bool => flags[h]?) same
    simp only [flags, List.getElem?_map, List.getElem?_range bound, Option.map_some,
      Option.some.injEq, decide_eq_decide, flag_iff] at one
    exact one
  have bounded : ∀ (t : RuleState) (i : Nat), i < 32 →
      (rule.overMask t).toBitVec.getLsbD i = true →
        ∃ h < rule.config.openThresholds.length, i = h % 32 := by
    intro t i small bit
    obtain ⟨⟨threshold, h⟩, member, -, low⟩ := (rule.overMask_bit t i small).mp bit
    obtain ⟨-, bound, -⟩ := List.mem_zipIdx member
    exact ⟨h, by omega, low⟩
  apply Int32.toBitVec_inj.mp
  apply BitVec.eq_of_getLsbD_eq
  intro i small
  apply Bool.eq_iff_iff.mpr
  constructor
  · intro bit
    obtain ⟨h, bound, low⟩ := bounded s i small bit
    rw [low] at bit ⊢
    exact (flag h bound).mp bit
  · intro bit
    obtain ⟨h, bound, low⟩ := bounded u i small bit
    rw [low] at bit ⊢
    exact (flag h bound).mpr bit

end PortScanRule

/-- The last transition before an update is of the same incident, and says something else. -/
def Updates (emitted : List Transition) : Prop :=
  ∀ before t after, emitted = before ++ t :: after → t.status = .update →
    ∃ previous, before.getLast? = some previous ∧ previous.incidentId = t.incidentId ∧
      (previous.overThreshold ≠ t.overThreshold ∨ previous.severity ≠ t.severity)

theorem Updates.nil : Updates [] := by
  intro before t after split
  cases before with
  | nil => cases split
  | cons _ _ => cases split

theorem Updates.concat {emitted : List Transition} (updates : Updates emitted) (t : Transition)
    (differs : t.status = .update → ∃ previous, emitted.getLast? = some previous ∧
      previous.incidentId = t.incidentId ∧
        (previous.overThreshold ≠ t.overThreshold ∨ previous.severity ≠ t.severity)) :
    Updates (emitted ++ [t]) := by
  intro before other after split
  rcases List.eq_nil_or_concat after with none | ⟨rest, last, rfl⟩
  · subst none
    obtain ⟨same, isLast⟩ := List.append_inj' split rfl
    rw [← same, ← (List.cons.inj isLast).1]
    exact differs
  · rw [List.concat_eq_append, ← List.cons_append, ← List.append_assoc] at split
    exact updates before other rest (List.append_inj' split rfl).1

/-- The last transition is of the active incident, and says what the state has stored. -/
structure Reported (rule : PortScanRule) (s : RuleState) (emitted : List Transition) : Prop where
  updates : Updates emitted
  last : s.status = .active → ∃ t, emitted.getLast? = some t ∧ t.incidentId = s.incidentId ∧
    t.overThreshold = rule.flags s.overMask ∧ t.severity = s.severity
  stored : s.status = .active → ∃ u, s.overMask = rule.overMask u

namespace Reported

variable {rule : PortScanRule} {s : RuleState} {emitted : List Transition}

theorem received (reported : Reported rule s emitted) (set : ViewSet) (nowMs : Int64) :
    Reported rule (PortScanRule.received s set nowMs) emitted := by
  obtain ⟨short, long, clockMs, clockWallMs, -, fields⟩ :=
    PortScanRule.received_fields s set nowMs
  rw [fields]
  exact ⟨reported.updates, reported.last, reported.stored⟩

theorem announce (updates : Updates emitted) (s u : RuleState) (status : TransitionStatus)
    (other : status ≠ .update) (clockMs ingestMs nowMs : Int64)
    (mask : s.overMask = rule.overMask u) :
    Reported rule s (emitted ++ [rule.transition s status clockMs ingestMs nowMs]) where
  updates := updates.concat _ fun isUpdate => absurd isUpdate other
  last _ := ⟨_, List.getLast?_concat, rfl, rfl, rfl⟩
  stored _ := ⟨u, mask⟩

theorem evaluate (reported : Reported rule s emitted) (clockMs ingestMs nowMs : Int64) :
    Reported rule (rule.evaluate s clockMs ingestMs nowMs).1
        (emitted ++ (rule.evaluate s clockMs ingestMs nowMs).2) ∧
      ((rule.evaluate s clockMs ingestMs nowMs).1.status = .active →
        ¬ rule.Changed (rule.evaluate s clockMs ingestMs nowMs).1) := by
  by_cases active : s.status = .active
  · by_cases settled : rule.Settled s clockMs
    · rw [rule.evaluate_resolve s _ _ _ active settled]
      exact ⟨announce reported.updates _ s _ TransitionStatus.noConfusion _ _ _ rfl,
        RuleStatus.noConfusion⟩
    · by_cases changed : rule.Changed s
      · rw [rule.evaluate_update s _ _ _ active settled changed]
        obtain ⟨previous, isLast, incidentId, flags, severity⟩ := reported.last active
        obtain ⟨u, mask⟩ := reported.stored active
        refine ⟨⟨?_, ?_, ?_⟩, ?_⟩
        · apply reported.updates.concat
          intro _
          refine ⟨previous, isLast, incidentId, ?_⟩
          rcases changed with differs | differs
          · left
            rw [flags, mask]
            intro same
            exact differs ((rule.flags_injective u s same).symm.trans mask.symm)
          · right
            rw [severity]
            exact differs.symm
        · exact fun _ => ⟨_, List.getLast?_concat, rfl, rfl, rfl⟩
        · exact fun _ => ⟨s, rfl⟩
        · exact fun _ differs => differs.elim (absurd rfl) (absurd rfl)
      · rw [rule.evaluate_unchanged s _ _ _ active settled changed, List.append_nil]
        exact ⟨⟨reported.updates, reported.last, reported.stored⟩, fun _ => changed⟩
  · by_cases quiet : rule.overMask s = 0
    · rw [rule.evaluate_quiet s _ _ _ active quiet, List.append_nil]
      exact ⟨reported, fun now => absurd now active⟩
    · by_cases cooling : rule.Cooling s clockMs
      · rw [rule.evaluate_reopen s _ _ _ quiet cooling]
        exact ⟨announce reported.updates _ s _ TransitionStatus.noConfusion _ _ _ rfl,
          fun _ differs => differs.elim (absurd rfl) (absurd rfl)⟩
      · rw [rule.evaluate_open s _ _ _ active quiet cooling]
        exact ⟨announce reported.updates _ s _ TransitionStatus.noConfusion _ _ _ rfl,
          fun _ differs => differs.elim (absurd rfl) (absurd rfl)⟩

theorem apply (reported : Reported rule s emitted) (call : RuleCall)
    (same : s.status = .active → ¬ rule.Changed s) :
    Reported rule (rule.apply s call).1 (emitted ++ (rule.apply s call).2) ∧
      ((rule.apply s call).1.status = .active → ¬ rule.Changed (rule.apply s call).1) := by
  cases call with
  | onViews set nowMs => exact (reported.received set nowMs).evaluate _ _ _
  | onClock nowMs =>
      simp only [PortScanRule.apply, PortScanRule.onClock]
      split
      · rw [List.append_nil]
        exact ⟨reported, same⟩
      · exact reported.evaluate _ _ _

end Reported

namespace PortScanRule

/-- The rule state after a run. -/
def reached (rule : PortScanRule) (calls : List RuleCall) : RuleState :=
  calls.foldl (fun s call => (rule.apply s call).1) .new

theorem run_reported (rule : PortScanRule) (bounded : rule.config.Bounded) (calls : List RuleCall)
    (s : RuleState) (emitted : List Transition) (reported : Reported rule s emitted)
    (quiet : Quiet rule s) (same : s.status = .active → ¬ rule.Changed s) :
    let final := calls.foldl (fun s call => (rule.apply s call).1) s
    Reported rule final (emitted ++ (rule.outputs s calls).flatMap Prod.snd) ∧
      Quiet rule final ∧ (final.status = .active → ¬ rule.Changed final) := by
  induction calls generalizing s emitted with
  | nil =>
      simp only [List.foldl_nil, outputs, List.flatMap_nil, List.append_nil]
      exact ⟨reported, quiet, same⟩
  | cons call calls ih =>
      obtain ⟨next, nextSame⟩ := reported.apply call same
      have rest := ih _ _ next (rule.apply_quiet bounded s call quiet) nextSame
      simp only [List.append_assoc] at rest
      simp only [List.foldl_cons, outputs, List.flatMap_cons]
      exact rest

end PortScanRule

/-- After any run of one rule state: a horizon over its threshold has an active incident, the last
transition shows an active incident as it is, and every update differs from the transition before
it. -/
theorem emitted_tracks_evaluation (rule : PortScanRule)
    (thresholds : ∀ threshold ∈ rule.config.openThresholds, 0 < threshold)
    (fraction : 0 ≤ rule.config.clearFraction ∧ rule.config.clearFraction < 1)
    (horizons : rule.config.openThresholds.length ≤ 32) (calls : List RuleCall) :
    (true ∈ rule.overHorizons (rule.reached calls) → (rule.reached calls).status = .active) ∧
    ((rule.reached calls).status = .active → ∃ t, (rule.emitted calls).getLast? = some t ∧
      t.overThreshold = rule.overHorizons (rule.reached calls) ∧
      t.severity = rule.severity (rule.reached calls)) ∧
    Updates (rule.emitted calls) := by
  have bounded : rule.config.Bounded := ⟨thresholds, fraction⟩
  have fresh : Reported rule .new [] := ⟨Updates.nil, RuleStatus.noConfusion, RuleStatus.noConfusion⟩
  obtain ⟨reported, quiet, same⟩ := rule.run_reported bounded calls .new [] fresh
    (fun _ => rule.new_overMask bounded) RuleStatus.noConfusion
  rw [List.nil_append] at reported
  refine ⟨?_, ?_, reported.updates⟩
  · intro reached
    by_contra inactive
    obtain ⟨entry, member, isOver⟩ := List.mem_map.mp reached
    exact (rule.overMask_eq_zero _).mp (quiet inactive) entry member (of_decide_eq_true isOver)
  · intro active
    obtain ⟨t, isLast, -, flags, severity⟩ := reported.last active
    have stored := same active
    rw [PortScanRule.Changed, not_or, not_not, not_not] at stored
    refine ⟨t, isLast, ?_, ?_⟩
    · rw [flags, ← rule.flags_overMask _ horizons, ← stored.1]
      rfl
    · rw [severity, ← stored.2]
      rfl

theorem emitted_tracks_evaluation_probe :
    (probeRule.emitted (probeCalls.take 5)).map Transition.severity = [1, 1, 1, 1, 2] ∧
    (true ∈ probeRule.overHorizons (probeRule.reached (probeCalls.take 5)) →
      (probeRule.reached (probeCalls.take 5)).status = .active) ∧
    ((probeRule.reached (probeCalls.take 5)).status = .active →
      ∃ t, (probeRule.emitted (probeCalls.take 5)).getLast? = some t ∧
        t.overThreshold = probeRule.overHorizons (probeRule.reached (probeCalls.take 5)) ∧
        t.severity = probeRule.severity (probeRule.reached (probeCalls.take 5))) ∧
    Updates (probeRule.emitted (probeCalls.take 5)) :=
  ⟨by decide, emitted_tracks_evaluation probeRule v1_valid.thresholds v1_valid.fraction (by decide)
    (probeCalls.take 5)⟩

end PiAgents.Detection
