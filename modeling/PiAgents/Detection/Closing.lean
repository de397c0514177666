import PiAgents.Detection.Emissions
import PiAgents.Detection.Expiring

/-! The rule state of a device in silence: once its views are empty, the timers of
`PortScanDetector` resolve its incident after the hold and drop the state after the cooldown. -/

namespace PiAgents.Detection

/-- The clocks of a rule state can be compared without a wrap, and an active incident has been clear
since a clock that its views have reached. -/
structure RuleState.Aging (s : RuleState) (wallMs : Int64) : Prop where
  clock : 0 < s.clockMs.toInt ∧ s.clockMs.toInt < 4611686018427387904
  wall : 0 ≤ s.clockWallMs.toInt ∧ s.clockWallMs.toInt ≤ wallMs.toInt
  since : s.status = .active → s.clearSinceMs = Int64.minValue ∨
    0 < s.clearSinceMs.toInt ∧ s.clearSinceMs.toInt ≤ s.clockMs.toInt
  resolvedAt : s.status = .resolved → 0 < s.resolvedAtMs.toInt ∧
    s.resolvedAtMs.toInt < 6917529027641081856

theorem RuleState.Aging.later {s : RuleState} {wallMs nowMs : Int64} (aging : s.Aging wallMs)
    (forward : wallMs.toInt ≤ nowMs.toInt) : s.Aging nowMs :=
  ⟨aging.clock, ⟨aging.wall.1, Int.le_trans aging.wall.2 forward⟩, aging.since, aging.resolvedAt⟩

theorem RuleState.Aging.silentClock {s : RuleState} {wallMs timerMs : Int64}
    (aging : s.Aging wallMs) (wall : wallMs < farMs) (nonneg : 0 ≤ timerMs.toInt)
    (timer : timerMs < farMs) : (s.silentClock timerMs).toInt =
      s.clockMs.toInt + max 0 (timerMs.toInt - s.clockWallMs.toInt) := by
  have clock := aging.clock
  have walls := aging.wall
  rw [Int64.lt_iff_toInt_lt, farMs_toInt] at wall timer
  have difference := Exact.sub timerMs s.clockWallMs (by omega) (by omega)
  have elapsed := mathMax_toInt 0 (timerMs - s.clockWallMs)
  have zero : (0 : Int64).toInt = 0 := rfl
  rw [difference, zero] at elapsed
  rw [RuleState.silentClock, Exact.add _ _ (by omega) (by omega), elapsed]

namespace PortScanRule

def Marks (rule : PortScanRule) (s : RuleState) : Prop :=
  s.status = .active → rule.clear s = true → s.clearSinceMs ≠ Int64.minValue

variable {rule : PortScanRule} {s : RuleState} {wallMs : Int64}

/-- An evaluation at the clock of the views may start the clear condition, one at a later clock
does not. -/
theorem clearSince_bounds (aging : s.Aging wallMs) (active : s.status = .active) {clockMs : Int64}
    (starts : clockMs = s.clockMs ∨ rule.Marks s) :
    (rule.clearSince s clockMs = Int64.minValue ∨ 0 < (rule.clearSince s clockMs).toInt ∧
        (rule.clearSince s clockMs).toInt ≤ s.clockMs.toInt) ∧
      (rule.clear s = true → rule.clearSince s clockMs ≠ Int64.minValue) := by
  have clock := aging.clock
  have least : Int64.minValue.toInt = -9223372036854775808 := rfl
  unfold PortScanRule.clearSince
  split
  · next clear =>
      split
      · next unset =>
          have same : clockMs = s.clockMs := starts.resolve_right fun marks =>
            marks active clear unset
          rw [same]
          refine ⟨Or.inr ⟨clock.1, Int.le_refl _⟩, ?_⟩
          intro _ none
          rw [none] at clock
          omega
      · next set => exact ⟨aging.since active, fun _ => set⟩
  · next unclear => exact ⟨Or.inl rfl, fun clear => absurd clear unclear⟩

theorem evaluate_aging (bounded : rule.config.Bounded) (aging : s.Aging wallMs) {clockMs : Int64}
    (reached : s.clockMs.toInt ≤ clockMs.toInt) (near : clockMs.toInt < 6917529027641081856)
    (starts : clockMs = s.clockMs ∨ rule.Marks s) (ingestMs nowMs : Int64) :
    (rule.evaluate s clockMs ingestMs nowMs).1.Aging wallMs ∧
      rule.Marks (rule.evaluate s clockMs ingestMs nowMs).1 := by
  have clock := aging.clock
  rw [rule.evaluate_eq]
  split
  · next inactive =>
    split
    · exact ⟨aging, fun active => absurd active inactive⟩
    · next high =>
      have unclear : rule.clear s ≠ true := fun clear => high (rule.clear_overMask s bounded clear)
      split
      · exact ⟨⟨clock, aging.wall, fun _ => Or.inl rfl, fun resolved => by cases resolved⟩,
          fun _ clear => absurd clear unclear⟩
      · exact ⟨⟨clock, aging.wall, fun _ => Or.inl rfl, fun resolved => by cases resolved⟩,
          fun _ clear => absurd clear unclear⟩
  · next notInactive =>
    have active : s.status = .active := not_not.mp notInactive
    have since := clearSince_bounds aging active starts
    split
    · exact ⟨⟨clock, aging.wall, fun active => (by cases active), fun _ => ⟨Int.lt_of_lt_of_le clock.1 reached, near⟩⟩,
        fun active => (by cases active)⟩
    · have unresolved : ∀ {p : Prop}, s.status = .resolved → p := by
        intro p resolved
        rw [active] at resolved
        cases resolved
      split
      · exact ⟨⟨clock, aging.wall, fun _ => since.1, unresolved⟩, fun _ => since.2⟩
      · exact ⟨⟨clock, aging.wall, fun _ => since.1, unresolved⟩, fun _ => since.2⟩

theorem received_aging (known : s = .new ∨ s.Aging wallMs) (set : ViewSet)
    (pair : ∃ short long, set.views = [short, long])
    (clock : 0 < set.windowEndMs.toInt ∧ set.windowEndMs.toInt < 4611686018427387904)
    {nowMs : Int64} (nonneg : 0 ≤ wallMs.toInt) (forward : wallMs.toInt ≤ nowMs.toInt) :
    (received s set nowMs).Aging nowMs := by
  rcases pair with ⟨short, long, views⟩
  rw [received_pair s set nowMs short long views]
  rcases known with rfl | aging
  · have newer : RuleState.new.clockMs < set.windowEndMs := by
      rw [Int64.lt_iff_toInt_lt]
      have least : RuleState.new.clockMs.toInt = -9223372036854775808 := rfl
      omega
    rw [if_pos newer, if_pos newer]
    exact ⟨clock, ⟨Int.le_trans nonneg forward, Int.le_refl _⟩, fun active => (by cases active),
      fun resolved => (by cases resolved)⟩
  · have before := aging.clock
    have walls := aging.wall
    by_cases newer : s.clockMs < set.windowEndMs
    · rw [if_pos newer, if_pos newer]
      rw [Int64.lt_iff_toInt_lt] at newer
      refine ⟨clock, ⟨Int.le_trans nonneg forward, Int.le_refl _⟩, ?_, aging.resolvedAt⟩
      exact fun active => (aging.since active).imp_right fun since =>
        ⟨since.1, Int.le_trans since.2 (Int.le_of_lt newer)⟩
    · rw [if_neg newer, if_neg newer]
      exact ⟨before, ⟨walls.1, Int.le_trans walls.2 forward⟩, aging.since, aging.resolvedAt⟩

/-- The views have no flows, and none of the thresholds is near. -/
structure Spent (rule : PortScanRule) (s : RuleState) : Prop where
  nothing : noEvidence s = true
  clear : rule.clear s = true
  quiet : rule.overMask s = 0

theorem spent_of_zero (bounded : rule.config.Bounded) {short long : View}
    (shortView : s.shortView = some short) (longView : s.longView = some long)
    (zero : AllZero [short, long]) : rule.Spent s := by
  have shortZero := zero short List.mem_cons_self
  have longZero := zero long (List.mem_cons_of_mem _ (List.mem_singleton_self long))
  simp only [View.counts, Prod.mk.injEq] at shortZero longZero
  have value : ∀ i, s.value i = 0 := by
    intro i
    have shown : s.view i = some short ∨ s.view i = some long := by
      rw [RuleState.view, shortView, longView]
      split
      · exact Or.inl rfl
      · exact Or.inr rfl
    rw [RuleState.value]
    rcases shown with isShort | isLong
    · simp only [isShort, shortZero.2.2.2.2]
      rfl
    · simp only [isLong, longZero.2.2.2.2]
      rfl
  have clear : rule.clear s = true := by
    rw [PortScanRule.clear, List.all_eq_true]
    intro entry member
    rw [value, decide_eq_true_eq]
    exact Binary64.not_mul_lt_zero _ _ bounded.fraction.1 bounded.fraction.2
      (bounded.thresholds entry.1 (List.fst_mem_of_mem_zipIdx member))
  refine ⟨?_, clear, rule.clear_overMask s bounded clear⟩
  rw [noEvidence, shortView, longView, Option.all_some, Option.all_some, shortZero.1, longZero.1]
  rfl

end PortScanRule

namespace PortScanDetector

/-- What is stored ages, and it is not a state without incident and without flows. -/
structure Aging (d : PortScanDetector) (wallMs : Int64) : Prop where
  aging : ∀ s ∈ d.state, s.Aging wallMs
  marks : ∀ s ∈ d.state, d.rule.Marks s
  evident : ∀ s ∈ d.state, s.status = .none → PortScanRule.noEvidence s = false
  timer : ∀ timerMs ∈ d.pendingTimer, 0 ≤ timerMs.toInt ∧ timerMs.toInt ≤ wallMs.toInt + 5000

variable {d : PortScanDetector} {wallMs : Int64}

theorem Aging.later (aging : d.Aging wallMs) {nowMs : Int64}
    (forward : wallMs.toInt ≤ nowMs.toInt) : d.Aging nowMs := by
  refine ⟨fun s held => (aging.aging s held).later forward, aging.marks, aging.evident, ?_⟩
  intro timerMs pending
  have bounds := aging.timer timerMs pending
  exact ⟨bounds.1, by omega⟩

theorem finish_aging (registered : d.timers = d.pendingTimer.toList) {s : RuleState}
    (aging : s.Aging wallMs) (marks : d.rule.Marks s) (atMs : Int64) (nonneg : 0 ≤ atMs.toInt)
    (reached : atMs.toInt ≤ wallMs.toInt) (wall : wallMs < farMs)
    (timer : ∀ timerMs ∈ d.pendingTimer, 0 ≤ timerMs.toInt ∧ timerMs.toInt ≤ wallMs.toInt + 5000) :
    (d.finish s atMs).Aging wallMs := by
  rw [finish_eq registered]
  split
  · exact ⟨by simp, by simp, by simp, by simp⟩
  · next busy =>
    have evident : s.status = .none → PortScanRule.noEvidence s = false := by
      intro none'
      simpa [PortScanRule.idle, none'] using busy
    split
    · refine ⟨?_, ?_, ?_, timer⟩
      · rintro u ⟨⟩
        exact aging
      · rintro u ⟨⟩
        exact marks
      · rintro u ⟨⟩
        exact evident
    · refine ⟨?_, ?_, ?_, ?_⟩
      · rintro u ⟨⟩
        exact aging
      · rintro u ⟨⟩
        exact marks
      · rintro u ⟨⟩
        exact evident
      · intro timerMs pending
        rw [← Option.mem_some_iff.mp pending]
        rw [Int64.lt_iff_toInt_lt, farMs_toInt] at wall
        have tick : tickMs.toInt = 5000 := rfl
        have sum := Exact.add atMs tickMs (by omega) (by omega)
        omega

theorem Aging.process (aging : d.Aging wallMs) (armed : d.Armed) (bounded : d.rule.config.Bounded)
    (set : ViewSet) (pair : ∃ short long, set.views = [short, long])
    (clock : 0 < set.windowEndMs.toInt ∧ set.windowEndMs.toInt < 4611686018427387904)
    {nowMs : Int64} (nonneg : 0 ≤ wallMs.toInt) (forward : wallMs.toInt ≤ nowMs.toInt)
    (now : nowMs < farMs) : (d.processElement set nowMs).1.Aging nowMs := by
  have known : d.state.getD .new = .new ∨ (d.state.getD .new).Aging wallMs := by
    cases held : d.state with
    | none => exact Or.inl rfl
    | some s => exact Or.inr (aging.aging s held)
  have viewed := PortScanRule.received_aging known set pair clock nonneg forward
  have evaluated := PortScanRule.evaluate_aging bounded viewed (Int.le_refl _)
    (Int.lt_trans viewed.clock.2 (by decide)) (Or.inl rfl) set.ingest nowMs
  apply finish_aging armed.registered evaluated.1 evaluated.2 nowMs (by omega) (Int.le_refl _) now
  intro timerMs pending
  have bounds := aging.timer timerMs pending
  exact ⟨bounds.1, by omega⟩

theorem onClock_eq (aging : d.Aging wallMs) {s : RuleState} (held : d.state = some s)
    (timestamp : Int64) : d.rule.onClock s timestamp =
      d.rule.evaluate s (s.silentClock timestamp) 0 timestamp := by
  apply if_neg
  intro least
  have clock := (aging.aging s held).clock
  rw [least] at clock
  exact absurd clock.1 (by decide)

theorem Aging.fire (aging : d.Aging wallMs) (armed : d.Armed) (bounded : d.rule.config.Bounded)
    {timestamp nowMs : Int64} (due : timestamp ∈ d.timers) (reached : timestamp.toInt ≤ nowMs.toInt)
    (forward : wallMs.toInt ≤ nowMs.toInt) (now : nowMs < farMs) :
    (d.fire timestamp).1.Aging nowMs := by
  rcases armed.due due with ⟨pending, s, held, _⟩
  have later := (aging.aging s held).later forward
  have timer := aging.timer timestamp pending
  have before : timestamp < farMs := Int64.lt_of_le_of_lt (Int64.le_iff_toInt_le.mpr reached) now
  have silent := later.silentClock now timer.1 before
  have clock := later.clock
  have wall := later.wall
  have limit := Int64.lt_iff_toInt_lt.mp before
  rw [farMs_toInt] at limit
  have reaches : s.clockMs.toInt ≤ (s.silentClock timestamp).toInt := by omega
  have evaluated := PortScanRule.evaluate_aging bounded later reaches (by omega)
    (Or.inr (aging.marks s held)) 0 timestamp
  rw [fire_eq armed due held, onClock_eq aging held]
  apply finish_aging (d := ⟨d.rule, some s, none, []⟩) rfl evaluated.1 evaluated.2 timestamp timer.1
    reached now
  intro timerMs none
  cases none

end PortScanDetector

end PiAgents.Detection
