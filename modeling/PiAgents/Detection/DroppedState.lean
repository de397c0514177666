import PiAgents.Detection.IncidentWord
import PiAgents.Detection.PortScanDetector

/-! What dropping an idle rule state is worth: the detector emits what a state that was never
dropped emits, as long as a state that starts anew has nothing to remember. -/

namespace PiAgents.Detection

/-- The states evaluate alike: they are equal, or they differ in when the last incident was
resolved while one is active, or the one has forgotten the last incident of the other. -/
inductive Twin (u : RuleState) : RuleState → Prop where
  | same : Twin u u
  | running (resolvedAtMs : Int64) (active : u.status = .active) : Twin u { u with resolvedAtMs }
  | forgotten (s : RuleState) (fresh : s.status = .none) (inactive : u.status ≠ .active)
      (shortView : s.shortView = u.shortView) (longView : s.longView = u.longView)
      (clockMs : s.clockMs = u.clockMs) (clockWallMs : s.clockWallMs = u.clockWallMs) : Twin u s

theorem Twin.views {s u : RuleState} (twin : Twin u s) :
    s.shortView = u.shortView ∧ s.longView = u.longView := by
  cases twin with
  | same => exact ⟨rfl, rfl⟩
  | running => exact ⟨rfl, rfl⟩
  | forgotten _ _ _ shortView longView => exact ⟨shortView, longView⟩

theorem Twin.clocks {s u : RuleState} (twin : Twin u s) :
    s.clockMs = u.clockMs ∧ s.clockWallMs = u.clockWallMs := by
  cases twin with
  | same => exact ⟨rfl, rfl⟩
  | running => exact ⟨rfl, rfl⟩
  | forgotten _ _ _ _ _ clockMs clockWallMs => exact ⟨clockMs, clockWallMs⟩

theorem Twin.active_iff {s u : RuleState} (twin : Twin u s) :
    s.status = .active ↔ u.status = .active := by
  cases twin with
  | same => exact Iff.rfl
  | running => exact Iff.rfl
  | forgotten _ fresh inactive =>
      rw [fresh]
      exact iff_of_false RuleStatus.noConfusion inactive

namespace PortScanRule

variable (rule : PortScanRule)

theorem evidence_congr {s u : RuleState} (shortView : s.shortView = u.shortView)
    (longView : s.longView = u.longView) :
    rule.overMask s = rule.overMask u ∧ rule.severity s = rule.severity u ∧
      rule.clear s = rule.clear u ∧ s.deviceKey = u.deviceKey := by
  have sameView : s.view = u.view := by
    funext h
    simp only [RuleState.view, shortView, longView]
  have value : s.value = u.value := by
    funext h
    simp only [RuleState.value, sameView]
  refine ⟨?_, ?_, ?_, ?_⟩
  · simp only [overMask, value]
  · simp only [severity, value]
  · simp only [clear, value]
  · simp only [RuleState.deviceKey, shortView, longView]

theorem opened_forgotten {s u : RuleState} (shortView : s.shortView = u.shortView)
    (longView : s.longView = u.longView) (clock : s.clockMs = u.clockMs)
    (clockWall : s.clockWallMs = u.clockWallMs) (clockMs : Int64) :
    rule.opened s clockMs = { rule.opened u clockMs with resolvedAtMs := s.resolvedAtMs } := by
  obtain ⟨mask, severity, -, key⟩ := rule.evidence_congr shortView longView
  simp only [opened, mask, severity, key, shortView, longView, clock, clockWall]

theorem evaluate_twin {s u : RuleState} (twin : Twin u s) (clockMs ingestMs nowMs : Int64)
    (cooled : s.status = .none → rule.overMask u ≠ 0 → ¬ rule.Cooling u clockMs) :
    (rule.evaluate s clockMs ingestMs nowMs).2 = (rule.evaluate u clockMs ingestMs nowMs).2 ∧
      Twin (rule.evaluate u clockMs ingestMs nowMs).1
        (rule.evaluate s clockMs ingestMs nowMs).1 := by
  cases twin with
  | same => exact ⟨rfl, .same⟩
  | running resolvedAtMs active =>
      generalize same : { u with resolvedAtMs } = t
      have activeToo : t.status = .active := same ▸ active
      by_cases settled : rule.Settled u clockMs
      · have settledToo : rule.Settled t clockMs := same ▸ settled
        rw [rule.evaluate_resolve u _ _ _ active settled,
          rule.evaluate_resolve t _ _ _ activeToo settledToo, ← same]
        exact ⟨rfl, .same⟩
      · have settledToo : ¬ rule.Settled t clockMs := same ▸ settled
        by_cases changed : rule.Changed u
        · have changedToo : rule.Changed t := same ▸ changed
          rw [rule.evaluate_update u _ _ _ active settled changed,
            rule.evaluate_update t _ _ _ activeToo settledToo changedToo, ← same]
          exact ⟨rfl, .running resolvedAtMs active⟩
        · have changedToo : ¬ rule.Changed t := same ▸ changed
          rw [rule.evaluate_unchanged u _ _ _ active settled changed,
            rule.evaluate_unchanged t _ _ _ activeToo settledToo changedToo, ← same]
          exact ⟨rfl, .running resolvedAtMs active⟩
  | forgotten _ fresh inactive shortView longView clock clockWall =>
      have inactiveToo : s.status ≠ .active := by
        rw [fresh]
        exact RuleStatus.noConfusion
      have mask := (rule.evidence_congr shortView longView).1
      by_cases quiet : rule.overMask u = 0
      · rw [rule.evaluate_quiet u _ _ _ inactive quiet,
          rule.evaluate_quiet s _ _ _ inactiveToo (mask.trans quiet)]
        exact ⟨rfl, .forgotten s fresh inactive shortView longView clock clockWall⟩
      · have anew : ¬ rule.Cooling s clockMs := by
          intro cooling
          exact RuleStatus.noConfusion (fresh.symm.trans cooling.1)
        rw [rule.evaluate_open u _ _ _ inactive quiet (cooled fresh quiet),
          rule.evaluate_open s _ _ _ inactiveToo (fun none => quiet (mask ▸ none)) anew,
          rule.opened_forgotten shortView longView clock clockWall]
        exact ⟨rfl, .running s.resolvedAtMs rfl⟩

/-- What the detector holds beside the state that was never dropped. -/
def Mirrors (state : Option RuleState) (u : RuleState) : Prop :=
  match state with
  | none => u.status ≠ .active ∧ rule.overMask u = 0
  | some s => Twin u s

/-- A view set that finds no memory of the last incident is newer than the clock of the state that
was dropped, and the cooldown of the incident is over. -/
def Remembers (state : Option RuleState) (u : RuleState) (set : ViewSet) : Prop :=
  match state with
  | none => u.clockMs < set.windowEndMs ∧ ¬ rule.Cooling u set.windowEndMs
  | some s => s.status = .none → ¬ rule.Cooling u (mathMax u.clockMs set.windowEndMs)

end PortScanRule

theorem received_pair (s : RuleState) (set : ViewSet) (nowMs : Int64) (a b : View)
    (pair : set.views = [a, b]) : PortScanRule.received s set nowMs =
      { s with
        shortView := some a
        longView := some b
        clockMs := if s.clockMs < set.windowEndMs then set.windowEndMs else s.clockMs
        clockWallMs := if s.clockMs < set.windowEndMs then nowMs else s.clockWallMs } := by
  have views : s.setViews set.views = { s with shortView := some a, longView := some b } := by
    rw [pair]
    rfl
  rw [PortScanRule.received, views]
  by_cases newer : s.clockMs < set.windowEndMs
  · simp only [newer, if_true]
  · simp only [newer, if_false]

theorem received_clock (s : RuleState) (set : ViewSet) (nowMs : Int64) (a b : View)
    (pair : set.views = [a, b]) :
    (PortScanRule.received s set nowMs).clockMs = mathMax s.clockMs set.windowEndMs := by
  rw [received_pair s set nowMs a b pair, mathMax]
  by_cases newer : s.clockMs < set.windowEndMs
  · simp only [if_pos newer, if_pos (Int64.le_of_lt newer)]
  · have past := Int64.not_lt.mp newer
    simp only [if_neg newer]
    split
    · next order => exact Int64.le_antisymm order past
    · rfl

theorem Twin.received {s u : RuleState} (twin : Twin u s) (set : ViewSet) (nowMs : Int64)
    (a b : View) (pair : set.views = [a, b]) :
    Twin (PortScanRule.received u set nowMs) (PortScanRule.received s set nowMs) := by
  rw [received_pair s set nowMs a b pair, received_pair u set nowMs a b pair]
  cases twin with
  | same => exact .same
  | running resolvedAtMs active => exact .running resolvedAtMs active
  | forgotten _ fresh inactive _ _ clock clockWall =>
      rw [clock, clockWall]
      exact .forgotten _ fresh inactive rfl rfl rfl rfl

namespace PortScanDetector

variable (d : PortScanDetector)

theorem store_state (s : RuleState) (nowMs : Int64) : (d.store s nowMs).state = some s := by
  simp only [store]
  split
  · rfl
  · rfl

theorem store_rule (s : RuleState) (nowMs : Int64) : (d.store s nowMs).rule = d.rule := by
  simp only [store]
  split
  · rfl
  · rfl

/-- Finishing keeps the mirror: only an inactive state is dropped. -/
theorem finish_mirrors {s u : RuleState} (twin : Twin u s) (quiet : Quiet d.rule u)
    (nowMs : Int64) : d.rule.Mirrors (d.finish s nowMs).state u := by
  unfold finish
  split
  · next idle =>
      have inactive : s.status ≠ .active := by
        intro active
        simp only [PortScanRule.idle, active] at idle
        cases idle
      have inactiveToo : u.status ≠ .active := fun active => inactive (twin.active_iff.mpr active)
      exact ⟨inactiveToo, quiet inactiveToo⟩
  · rw [store_state]
    exact twin

theorem finish_rule (s : RuleState) (nowMs : Int64) : (d.finish s nowMs).rule = d.rule := by
  unfold finish
  split
  · rfl
  · exact d.store_rule s nowMs

theorem fire_rule (timestamp : Int64) : (d.fire timestamp).1.rule = d.rule := by
  simp only [fire, onTimer]
  cases d.state with
  | none => rfl
  | some s => exact finish_rule _ _ timestamp

theorem onViews_quiet (valid : d.rule.config.Valid) (u : RuleState) (set : ViewSet)
    (nowMs : Int64) : Quiet d.rule (d.rule.onViews u set nowMs).1 :=
  evaluate_leaves_quiet d.rule valid.bounded _ _ _ _

theorem processElement_mirrors (valid : d.rule.config.Valid) (u : RuleState) (set : ViewSet)
    (nowMs : Int64) (a b : View) (pair : set.views = [a, b]) (mirrors : d.rule.Mirrors d.state u)
    (remembers : d.rule.Remembers d.state u set) :
    (d.processElement set nowMs).2 = (d.rule.onViews u set nowMs).2 ∧
      d.rule.Mirrors (d.processElement set nowMs).1.state (d.rule.onViews u set nowMs).1 := by
  have twin : Twin (PortScanRule.received u set nowMs)
        (PortScanRule.received (d.state.getD .new) set nowMs) ∧
      ((PortScanRule.received (d.state.getD .new) set nowMs).status = .none →
        ¬ d.rule.Cooling u (mathMax u.clockMs set.windowEndMs)) := by
    cases held : d.state with
    | none =>
        rw [held] at mirrors remembers
        obtain ⟨newer, cooled⟩ := remembers
        have later : RuleState.new.clockMs < set.windowEndMs :=
          Int64.lt_of_le_of_lt (Int64.minValue_le _) newer
        have clock : mathMax u.clockMs set.windowEndMs = set.windowEndMs :=
          if_pos (Int64.le_of_lt newer)
        rw [Option.getD_none, received_pair .new set nowMs a b pair,
          received_pair u set nowMs a b pair, clock]
        simp only [newer, later, if_true]
        exact ⟨.forgotten _ rfl mirrors.1 rfl rfl rfl rfl, fun _ => cooled⟩
    | some s =>
        rw [held] at mirrors remembers
        refine ⟨Twin.received mirrors set nowMs a b pair, ?_⟩
        rw [Option.getD_some, received_pair s set nowMs a b pair]
        exact remembers
  obtain ⟨twin, cooled⟩ := twin
  have clocks := twin.clocks.1
  have evaluated := d.rule.evaluate_twin twin (PortScanRule.received u set nowMs).clockMs set.ingest
    nowMs (by
      intro fresh _
      rw [received_clock u set nowMs a b pair]
      have same := cooled fresh
      rw [received_pair u set nowMs a b pair]
      exact same)
  have real : d.rule.onViews (d.state.getD .new) set nowMs =
      d.rule.evaluate (PortScanRule.received (d.state.getD .new) set nowMs)
        (PortScanRule.received u set nowMs).clockMs set.ingest nowMs := by
    rw [PortScanRule.onViews, clocks]
  have processed : d.processElement set nowMs =
      (d.finish (d.rule.onViews (d.state.getD .new) set nowMs).1 nowMs,
        (d.rule.onViews (d.state.getD .new) set nowMs).2) := rfl
  rw [processed, real]
  exact ⟨evaluated.1, d.finish_mirrors evaluated.2 (d.onViews_quiet valid u set nowMs) nowMs⟩

theorem fire_mirrors (valid : d.rule.config.Valid) (u : RuleState) (timestamp : Int64)
    (mirrors : d.rule.Mirrors d.state u) (quiet : Quiet d.rule u) :
    (d.fire timestamp).2 = (d.rule.onClock u timestamp).2 ∧
      d.rule.Mirrors (d.fire timestamp).1.state (d.rule.onClock u timestamp).1 := by
  have nextQuiet := d.rule.apply_quiet valid.bounded u (.onClock timestamp) quiet
  cases held : d.state with
  | none =>
      rw [held] at mirrors
      have fired : d.fire timestamp = ({ d with
          timers := d.timers.erase timestamp
          pendingTimer := none }, []) := by
        simp only [fire, onTimer, held]
      have still : d.rule.onClock u timestamp = (u, []) := by
        unfold PortScanRule.onClock
        split
        · rfl
        · exact d.rule.evaluate_quiet u _ _ _ mirrors.1 mirrors.2
      rw [still, fired]
      rw [← held] at mirrors
      exact ⟨rfl, mirrors⟩
  | some s =>
      rw [held] at mirrors
      have twin : Twin u s := mirrors
      have fired : d.fire timestamp = ({ d with
          timers := d.timers.erase timestamp
          pendingTimer := none }.finish (d.rule.onClock s timestamp).1 timestamp,
            (d.rule.onClock s timestamp).2) := by
        simp only [fire, onTimer, held]
      have evaluated : (d.rule.onClock s timestamp).2 = (d.rule.onClock u timestamp).2 ∧
          Twin (d.rule.onClock u timestamp).1 (d.rule.onClock s timestamp).1 := by
        unfold PortScanRule.onClock RuleState.silentClock
        rw [twin.clocks.1, twin.clocks.2]
        split
        · exact ⟨rfl, twin⟩
        · apply d.rule.evaluate_twin twin
          intro fresh seen
          have inactive : s.status ≠ .active := by
            rw [fresh]
            exact RuleStatus.noConfusion
          exact absurd (quiet fun active => inactive (twin.active_iff.mpr active)) seen
      rw [fired]
      have unarmed := finish_mirrors { d with
          timers := d.timers.erase timestamp
          pendingTimer := none } evaluated.2 nextQuiet timestamp
      exact ⟨evaluated.1, unarmed⟩

end PortScanDetector

end PiAgents.Detection
