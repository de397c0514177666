import PiAgents.Detection.DroppedState
import PiAgents.Detection.Evidence

/-! An idle rule state against a fresh one, over the same later calls: they emit the same
transitions as long as the device clock keeps up. -/

namespace PiAgents.Detection

def RuleCall.set? : RuleCall → Option ViewSet
  | .onViews set _ => some set
  | .onClock _ => none

def viewSets (calls : List RuleCall) : List ViewSet := calls.filterMap RuleCall.set?

/-- The calls have views of both horizons, the first ones at a clock not before the given one and
newer than the state's. -/
structure KeepsUp (s : RuleState) (clockMs : Int64) (calls : List RuleCall) : Prop where
  both : ∀ set ∈ viewSets calls, ∃ short long, set.views = [short, long]
  first : ∀ set ∈ (viewSets calls).head?, clockMs ≤ set.windowEndMs ∧ s.clockMs < set.windowEndMs

def Hollow (s : RuleState) : Prop :=
  ∀ view, s.shortView = some view ∨ s.longView = some view → view.flows = 0 → view.failedTargets = 0

structure Representable (s : RuleState) (clockMs : Int64) (calls : List RuleCall) : Prop where
  idle : (clockMs - s.resolvedAtMs).toInt = clockMs.toInt - s.resolvedAtMs.toInt
  later : ∀ set ∈ viewSets calls, set.windowEndMs.toInt - s.resolvedAtMs.toInt < 2 ^ 63

namespace PortScanRule

variable {rule : PortScanRule}

theorem idle_views {s : RuleState} {clockMs : Int64} (idle : rule.idle s clockMs = true) :
    noEvidence s = true ∧ s.status ≠ .active ∧
      (s.status = .resolved → rule.config.cooldownMs ≤ clockMs - s.resolvedAtMs) := by
  cases status : s.status with
  | none =>
      simp only [PortScanRule.idle, status] at idle
      exact ⟨idle, RuleStatus.noConfusion, RuleStatus.noConfusion⟩
  | active =>
      simp only [PortScanRule.idle, status] at idle
      cases idle
  | resolved =>
      simp only [PortScanRule.idle, status, Bool.and_eq_true, decide_eq_true_eq] at idle
      exact ⟨idle.1, RuleStatus.noConfusion, fun _ => idle.2⟩

theorem hollow_overMask {s : RuleState} (hollow : Hollow s) (nothing : noEvidence s = true)
    (positive : ∀ threshold ∈ rule.config.openThresholds, 0 < threshold) : rule.overMask s = 0 := by
  rw [noEvidence, Bool.and_eq_true] at nothing
  have zero : ∀ i, s.value i = 0 := by
    intro i
    have empty : ∀ view, s.view i = some view → view.failedTargets = 0 := by
      intro view shown
      rw [RuleState.view] at shown
      split at shown
      · have flows := nothing.1
        rw [shown] at flows
        exact hollow view (Or.inl shown) (of_decide_eq_true flows)
      · have flows := nothing.2
        rw [shown] at flows
        exact hollow view (Or.inr shown) (of_decide_eq_true flows)
    rw [RuleState.value]
    cases shown : s.view i with
    | none => rfl
    | some view =>
        change Binary64.ofInt32 view.failedTargets = 0
        rw [empty view shown]
        rfl
  rw [overMask_eq_zero]
  intro entry member reached
  rw [zero] at reached
  exact Binary64.not_le_zero_of_pos entry.1
    (positive entry.1 (List.fst_mem_of_mem_zipIdx member)) reached

theorem evaluate_none (rule : PortScanRule) (s : RuleState) (clockMs ingestMs nowMs : Int64)
    (none' : (rule.evaluate s clockMs ingestMs nowMs).1.status = .none) :
    s.status = .none ∧ rule.overMask s = 0 := by
  by_cases active : s.status = .active
  · by_cases settled : rule.Settled s clockMs
    · rw [rule.evaluate_resolve s clockMs ingestMs nowMs active settled] at none'
      cases none'
    · by_cases changed : rule.Changed s
      · rw [rule.evaluate_update s clockMs ingestMs nowMs active settled changed] at none'
        exact absurd (none'.symm.trans active) RuleStatus.noConfusion
      · rw [rule.evaluate_unchanged s clockMs ingestMs nowMs active settled changed] at none'
        exact absurd (none'.symm.trans active) RuleStatus.noConfusion
  · by_cases quiet : rule.overMask s = 0
    · rw [rule.evaluate_quiet s clockMs ingestMs nowMs active quiet] at none'
      exact ⟨none', quiet⟩
    · by_cases cooling : rule.Cooling s clockMs
      · rw [rule.evaluate_reopen s clockMs ingestMs nowMs quiet cooling] at none'
        cases none'
      · rw [rule.evaluate_open s clockMs ingestMs nowMs active quiet cooling] at none'
        cases none'

end PortScanRule

/-- The cooldown after the resolve is over at the clock, and their difference fits in a long. -/
structure CooledAt (rule : PortScanRule) (resolvedAtMs clockMs : Int64) : Prop where
  cooled : rule.config.cooldownMs.toInt ≤ clockMs.toInt - resolvedAtMs.toInt
  fits : clockMs.toInt - resolvedAtMs.toInt < 2 ^ 63

theorem CooledAt.not_cooling {rule : PortScanRule} {u : RuleState} {clockMs : Int64}
    (cooledAt : CooledAt rule u.resolvedAtMs clockMs) : ¬ rule.Cooling u clockMs := by
  intro cooling
  have within := cooling.2
  have least := Int64.le_toInt rule.config.cooldownMs
  have cooled := cooledAt.cooled
  rw [Int64.lt_iff_toInt_lt, Exact.sub clockMs u.resolvedAtMs (by omega) cooledAt.fits] at within
  omega

/-- The state that started anew mirrors the retained one, whose cooldown after the last resolve is
over until the two open an incident. -/
structure Retained (rule : PortScanRule) (last : Option Int64) (u s : RuleState) : Prop where
  twin : Twin u s
  cooled : s.status = .none → u.status = .resolved → rule.overMask u = 0 ∧
    last = some u.resolvedAtMs ∧ CooledAt rule u.resolvedAtMs u.clockMs

namespace Retained

variable {rule : PortScanRule} {last : Option Int64} {u s : RuleState}

theorem evaluate (twin : Twin u s)
    (clocks : s.status = .none → u.status = .resolved →
      last = some u.resolvedAtMs ∧ CooledAt rule u.resolvedAtMs u.clockMs)
    (clockMs ingestMs nowMs : Int64)
    (cooled : s.status = .none → rule.overMask u ≠ 0 → ¬ rule.Cooling u clockMs) :
    (rule.evaluate s clockMs ingestMs nowMs).2 = (rule.evaluate u clockMs ingestMs nowMs).2 ∧
      Retained rule last (rule.evaluate u clockMs ingestMs nowMs).1
        (rule.evaluate s clockMs ingestMs nowMs).1 := by
  have alike := rule.evaluate_twin twin clockMs ingestMs nowMs cooled
  refine ⟨alike.1, alike.2, ?_⟩
  intro none' resolved
  rcases rule.evaluate_none s clockMs ingestMs nowMs none' with ⟨fresh, quiet⟩
  have quietToo : rule.overMask u = 0 := by
    rw [← quiet]
    exact (rule.evidence_congr twin.views.1 twin.views.2).1.symm
  have inactive : u.status ≠ .active := by
    intro active
    exact RuleStatus.noConfusion (fresh.symm.trans (twin.active_iff.mpr active))
  rw [rule.evaluate_quiet u clockMs ingestMs nowMs inactive quietToo] at resolved ⊢
  exact ⟨quietToo, clocks fresh resolved⟩

theorem onViews (retained : Retained rule last u s) (set : ViewSet) (nowMs : Int64)
    (both : ∃ short long, set.views = [short, long])
    (fits : ∀ resolvedAtMs ∈ last, set.windowEndMs.toInt - resolvedAtMs.toInt < 2 ^ 63) :
    (rule.onViews s set nowMs).2 = (rule.onViews u set nowMs).2 ∧
      Retained rule last (rule.onViews u set nowMs).1 (rule.onViews s set nowMs).1 := by
  rcases both with ⟨short, long, pair⟩
  have twin := retained.twin.received set nowMs short long pair
  have clocks : (PortScanRule.received s set nowMs).status = .none →
      (PortScanRule.received u set nowMs).status = .resolved →
        last = some (PortScanRule.received u set nowMs).resolvedAtMs ∧
          CooledAt rule (PortScanRule.received u set nowMs).resolvedAtMs
            (PortScanRule.received u set nowMs).clockMs := by
    rw [received_status, received_status]
    intro fresh resolved
    rcases retained.cooled fresh resolved with ⟨_, isLast, cooledAt⟩
    rw [received_pair u set nowMs short long pair]
    refine ⟨isLast, ?_⟩
    change CooledAt rule u.resolvedAtMs
      (if u.clockMs < set.windowEndMs then set.windowEndMs else u.clockMs)
    by_cases newer : u.clockMs < set.windowEndMs
    · rw [if_pos newer]
      rw [Int64.lt_iff_toInt_lt] at newer
      have cooled := cooledAt.cooled
      exact ⟨by omega, fits u.resolvedAtMs isLast⟩
    · rw [if_neg newer]
      exact cooledAt
  have same := twin.clocks.1
  have cooled : (PortScanRule.received s set nowMs).status = .none →
      rule.overMask (PortScanRule.received u set nowMs) ≠ 0 →
        ¬ rule.Cooling (PortScanRule.received u set nowMs)
          (PortScanRule.received s set nowMs).clockMs := by
    intro fresh _ cooling
    have known := clocks fresh cooling.1
    rw [same] at cooling
    exact known.2.not_cooling cooling
  rw [PortScanRule.onViews, PortScanRule.onViews, ← same]
  exact evaluate twin clocks _ _ _ cooled

theorem onClock (retained : Retained rule last u s) (nowMs : Int64) :
    (rule.onClock s nowMs).2 = (rule.onClock u nowMs).2 ∧
      Retained rule last (rule.onClock u nowMs).1 (rule.onClock s nowMs).1 := by
  have clocks := retained.twin.clocks
  have silent : s.silentClock nowMs = u.silentClock nowMs := by
    rw [RuleState.silentClock, RuleState.silentClock, clocks.1, clocks.2]
  rw [PortScanRule.onClock, PortScanRule.onClock, clocks.1, silent]
  by_cases unset : u.clockMs = Int64.minValue
  · rw [if_pos unset, if_pos unset]
    exact ⟨rfl, retained⟩
  · rw [if_neg unset, if_neg unset]
    apply evaluate retained.twin
    · exact fun fresh resolved => (retained.cooled fresh resolved).2
    · intro fresh reached cooling
      exact reached (retained.cooled fresh cooling.1).1

theorem outputs (retained : Retained rule last u s) (calls : List RuleCall)
    (both : ∀ set ∈ viewSets calls, ∃ short long, set.views = [short, long])
    (fits : ∀ set ∈ viewSets calls, ∀ resolvedAtMs ∈ last,
      set.windowEndMs.toInt - resolvedAtMs.toInt < 2 ^ 63) :
    rule.outputs s calls = rule.outputs u calls := by
  induction calls generalizing u s with
  | nil => rfl
  | cons call rest ih =>
      cases call with
      | onViews set nowMs =>
          have here : set ∈ viewSets (.onViews set nowMs :: rest) := List.mem_cons_self
          have alike := retained.onViews set nowMs (both set here) (fits set here)
          have later := ih alike.2 (fun other member => both other (List.mem_cons_of_mem _ member))
            fun other member => fits other (List.mem_cons_of_mem _ member)
          simp only [PortScanRule.outputs, PortScanRule.apply, alike.1, later]
      | onClock nowMs =>
          have alike := retained.onClock nowMs
          have later := ih alike.2 both fits
          simp only [PortScanRule.outputs, PortScanRule.apply, alike.1, later]

end Retained

def lastResolve (s : RuleState) : Option Int64 :=
  if s.status = .resolved then some s.resolvedAtMs else none

section Idle

variable {rule : PortScanRule} {s : RuleState} {clockMs : Int64}

/-- The first views make the idle state and the fresh one alike. -/
theorem first_retained (inactive : s.status ≠ .active) (set : ViewSet) (nowMs : Int64)
    (both : ∃ short long, set.views = [short, long]) (newer : s.clockMs < set.windowEndMs)
    (cooled : s.status = .resolved → CooledAt rule s.resolvedAtMs set.windowEndMs) :
    (rule.onViews .new set nowMs).2 = (rule.onViews s set nowMs).2 ∧
      Retained rule (lastResolve s) (rule.onViews s set nowMs).1
        (rule.onViews .new set nowMs).1 := by
  rcases both with ⟨short, long, pair⟩
  have started : RuleState.new.clockMs < set.windowEndMs :=
    Int64.lt_of_le_of_lt (Int64.minValue_le _) newer
  have received := received_pair s set nowMs short long pair
  have receivedNew := received_pair .new set nowMs short long pair
  rw [if_pos newer, if_pos newer] at received
  rw [if_pos started, if_pos started] at receivedNew
  have twin : Twin (PortScanRule.received s set nowMs) (PortScanRule.received .new set nowMs) := by
    rw [received, receivedNew]
    exact .forgotten _ rfl inactive rfl rfl rfl rfl
  have clock : (PortScanRule.received s set nowMs).clockMs = set.windowEndMs := by
    rw [received]
  have clockNew : (PortScanRule.received .new set nowMs).clockMs = set.windowEndMs := by
    rw [receivedNew]
  have resolvedAt : (PortScanRule.received s set nowMs).resolvedAtMs = s.resolvedAtMs := by
    rw [received]
  rw [PortScanRule.onViews, PortScanRule.onViews, clock, clockNew]
  apply Retained.evaluate twin
  · intro _ resolved
    rw [received_status] at resolved
    rw [clock, resolvedAt, lastResolve, if_pos resolved]
    exact ⟨rfl, cooled resolved⟩
  · intro _ _ cooling
    have resolved := cooling.1
    rw [received_status] at resolved
    have cooledAt := cooled resolved
    rw [← resolvedAt] at cooledAt
    exact cooledAt.not_cooling cooling

/-- Until the first views the idle state and the fresh one are silent and stay as they are. -/
theorem idle_onClock (inactive : s.status ≠ .active) (quiet : rule.overMask s = 0) (nowMs : Int64) :
    rule.onClock s nowMs = (s, []) := by
  rw [PortScanRule.onClock]
  by_cases unset : s.clockMs = Int64.minValue
  · rw [if_pos unset]
  · rw [if_neg unset, rule.evaluate_quiet s _ _ _ inactive quiet]

end Idle

/-- After an idle state the calls of a device whose clock keeps up emit what they emit after a fresh
one. -/
theorem idle_state_invisible (rule : PortScanRule)
    (positive : ∀ threshold ∈ rule.config.openThresholds, 0 < threshold) (s : RuleState)
    (clockMs : Int64) (idle : rule.idle s clockMs = true) (hollow : Hollow s)
    (calls : List RuleCall) (keepsUp : KeepsUp s clockMs calls)
    (representable : s.status = .resolved → Representable s clockMs calls) :
    rule.outputs s calls = rule.outputs .new calls := by
  rcases PortScanRule.idle_views idle with ⟨nothing, inactive, cooled⟩
  have quiet := PortScanRule.hollow_overMask hollow nothing positive
  induction calls with
  | nil => rfl
  | cons call rest ih =>
      cases call with
      | onClock nowMs =>
          have silent := idle_onClock inactive quiet nowMs
          have silentNew : rule.onClock .new nowMs = (.new, []) := if_pos rfl
          have later := ih ⟨keepsUp.both, keepsUp.first⟩ fun resolved =>
            ⟨(representable resolved).idle, (representable resolved).later⟩
          simp only [PortScanRule.outputs, PortScanRule.apply, silent, silentNew, later]
      | onViews set nowMs =>
          have here : set ∈ viewSets (.onViews set nowMs :: rest) := List.mem_cons_self
          have first := keepsUp.first set rfl
          have fits : s.status = .resolved → CooledAt rule s.resolvedAtMs set.windowEndMs := by
            intro resolved
            have exact' := (representable resolved).idle
            have waited := cooled resolved
            have order := first.1
            rw [Int64.le_iff_toInt_le] at waited order
            exact ⟨by omega, (representable resolved).later set here⟩
          have alike := first_retained inactive set nowMs (keepsUp.both set here) first.2 fits
          have later := alike.2.outputs rest
            (fun other member => keepsUp.both other (List.mem_cons_of_mem _ member)) ?_
          · simp only [PortScanRule.outputs, PortScanRule.apply, alike.1, later]
          · intro other member resolvedAtMs isLast
            rw [lastResolve] at isLast
            split at isLast
            · next resolved =>
                cases isLast
                exact (representable resolved).later other (List.mem_cons_of_mem _ member)
            · cases isLast

def endedScan (resolvedAtMs clockMs : Int64) : RuleState where
  status := .resolved
  incidentId := "448a11ef6c62bed4533b416c1bea9772"
  revision := 7
  episodeStartMs := 1000
  overMask := 0
  severity := 1
  clearSinceMs := 90000
  resolvedAtMs := resolvedAtMs
  shortView := some (probeView 60 clockMs 0)
  longView := some (probeView 900 clockMs 0)
  clockMs := clockMs
  clockWallMs := clockMs

theorem hollow_endedScan (resolvedAtMs clockMs : Int64) : Hollow (endedScan resolvedAtMs clockMs) := by
  intro view shown _
  rcases shown with short | long
  · cases short
    rfl
  · cases long
    rfl

def laterScan : List RuleCall :=
  [.onClock 455000, probeViews 500000 20, probeViews 510000 0, .onClock 600000]

theorem idle_state_invisible_scan :
    probeRule.outputs (endedScan 150000 150000) laterScan = probeRule.outputs .new laterScan := by
  refine idle_state_invisible probeRule v1_valid.thresholds (endedScan 150000 150000) 455000
    (by decide) (hollow_endedScan _ _) laterScan ⟨?_, ?_⟩ fun _ => ⟨by decide, ?_⟩
  · intro set member
    rcases List.mem_cons.mp member with rfl | later
    · exact ⟨_, _, rfl⟩
    · rw [List.mem_singleton.mp later]
      exact ⟨_, _, rfl⟩
  · intro set first
    cases first
    decide
  · intro set member
    rcases List.mem_cons.mp member with rfl | later
    · decide
    · rw [List.mem_singleton.mp later]
      decide

/-- A resolve at the least clock but one: the next view set is further away than a long can say, and
the crossing is taken for one within the cooldown. -/
theorem idle_state_wraps :
    probeRule.idle (endedScan (Int64.minValue + 1) 0) 0 = true ∧
      Hollow (endedScan (Int64.minValue + 1) 0) ∧
      KeepsUp (endedScan (Int64.minValue + 1) 0) 0 [probeViews 1000 20] ∧
      probeRule.outputs (endedScan (Int64.minValue + 1) 0) [probeViews 1000 20] ≠
        probeRule.outputs .new [probeViews 1000 20] := by
  refine ⟨by decide, hollow_endedScan _ _, ⟨?_, ?_⟩, ?_⟩
  · intro set member
    rw [List.mem_singleton.mp member]
    exact ⟨_, _, rfl⟩
  · intro set first
    cases first
    decide
  · intro same
    have statuses := congrArg (List.flatMap fun entry => entry.2.map Transition.status) same
    have reopens : (probeRule.outputs (endedScan (Int64.minValue + 1) 0)
        [probeViews 1000 20]).flatMap (fun entry => entry.2.map Transition.status) =
          [.reopen] := by decide
    have opens : (probeRule.outputs .new [probeViews 1000 20]).flatMap
        (fun entry => entry.2.map Transition.status) = [.open] := by decide
    exact absurd (reopens.symm.trans (statuses.trans opens)) (by decide)

end PiAgents.Detection
