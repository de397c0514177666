import PiAgents.Detection.PipelineRun

/-! The rule of an undisturbed run against the replay: the incident is what the replay makes of
the records and the turns. -/

namespace PiAgents.Detection

/-- The replay of records and turns: the windows of the records, and the state of the incident. -/
structure Replay where
  windows : DeviceWindows
  core : RuleState

namespace Replay

variable (rule : PortScanRule) (key : String)

/-- A record is evaluated when it turns the incident, or when no incident is active and its views
are over threshold. -/
def turn (m : Replay) : Turn → Replay × List Content
  | .record flow turned =>
    let windows := m.windows.add flow
    let s := m.core.setViews (windows.views key)
    if turned ∨ (m.core.status ≠ .active ∧ rule.overMask s ≠ 0) then
      let (s, out) := rule.evaluate s windows.clockMs 0 0
      (⟨windows, s.core⟩, out.map Transition.content)
    else (⟨windows, m.core⟩, [])
  | .tick windowEndMs =>
    let s := m.core.setViews ((m.windows.advanceTo windowEndMs).1.views key)
    let (s, out) := rule.evaluate s windowEndMs 0 0
    (⟨m.windows, s.core⟩, out.map Transition.content)
  | .clock clockMs =>
    (⟨m.windows, m.core.closed clockMs⟩, [rule.contentOf (m.core.closed clockMs) .resolve])

def turns : Replay → List Turn → Replay × List Content
  | m, [] => (m, [])
  | m, turn :: rest =>
    let after := m.turn rule key turn
    let last := after.1.turns rest
    (last.1, after.2 ++ last.2)

def start (shortMs longMs : Int64) : Replay := ⟨.new [shortMs, longMs], RuleState.new.core⟩

theorem turns_append (m : Replay) (first second : List Turn) :
    m.turns rule key (first ++ second) =
      (((m.turns rule key first).1.turns rule key second).1,
        (m.turns rule key first).2 ++ ((m.turns rule key first).1.turns rule key second).2) := by
  induction first generalizing m with
  | nil => rfl
  | cons turn rest ih =>
      simp only [List.cons_append, turns, ih, List.append_assoc]

end Replay

/-- The rule beside the position that it has come to. -/
structure RuleSide (rule : PortScanRule) (key : String) (begin : Replay)
    (state : Option RuleState) (kept : RuleState) (emitted : List Transition)
    (turns : List Turn) (here : Position) : Prop where
  windows : (begin.turns rule key turns).1.windows = here.windows
  core : (begin.turns rule key turns).1.core = kept.core
  contents : emitted.map Transition.content = (begin.turns rule key turns).2
  clock : kept.clockMs = here.endMs
  started : kept.status = .active → kept.clockMs ≠ Int64.minValue
  held : (here.held = [] ∧ kept.shortView = none ∧ kept.longView = none) ∨
    ∃ a b, here.held = [a, b] ∧ kept.shortView = some a ∧ kept.longView = some b
  stable : rule.Stable kept
  mirrors : rule.Mirrors state kept
  told : ∃ episodes, Told rule kept episodes ∧ episodes.flatMap Episode.transitions = emitted

theorem overMask_of_counts (rule : PortScanRule) (s : RuleState) (a b c d : View)
    (short : s.shortView = some a) (long : s.longView = some b)
    (same : failedCounts [c, d] = failedCounts [a, b]) :
    rule.overMask (s.setViews [c, d]) = rule.overMask s := by
  have value : (s.setViews [c, d]).value = s.value := by
    simp only [failedCounts, List.map_cons, List.map_nil, List.cons.injEq, and_true] at same
    funext h
    by_cases first : h = 0
    · subst first
      have viewed : (s.setViews [c, d]).view 0 = some c := rfl
      have before : s.view 0 = some a := short
      rw [RuleState.value, RuleState.value, viewed, before]
      exact congrArg Binary64.ofInt32 same.1
    · have viewed : (s.setViews [c, d]).view h = some d := if_neg first
      have before : s.view h = some b := (if_neg first).trans long
      rw [RuleState.value, RuleState.value, viewed, before]
      exact congrArg Binary64.ofInt32 same.2
  simp only [PortScanRule.overMask, value]

namespace RuleSide

variable {rule : PortScanRule} {key : String} {begin : Replay} {state : Option RuleState}
  {kept : RuleState} {emitted : List Transition} {turns : List Turn} {here : Position}

theorem skipped (side : RuleSide rule key begin state kept emitted turns here)
    (flow : FlowRecord) (fits : here.Fits key (.record flow none)) :
    RuleSide rule key begin state kept emitted (turns ++ [.record flow false])
      (here.pass (.record flow none)) := by
  obtain ⟨counts, length⟩ := fits
  obtain ⟨c, d, pair⟩ := List.length_eq_two.mp length
  have quiet : ¬ ((false = true) ∨ ((begin.turns rule key turns).1.core.status ≠ .active ∧
      rule.overMask ((begin.turns rule key turns).1.core.setViews
        (((begin.turns rule key turns).1.windows.add flow).views key)) ≠ 0)) := by
    rw [side.windows, side.core, pair]
    rintro (never | ⟨inactive, mask⟩)
    · cases never
    · apply mask
      rcases side.held with ⟨nothing, -, -⟩ | ⟨a, b, held, short, long⟩
      · rw [pair, nothing] at counts
        cases counts
      · rw [pair, held] at counts
        have same := overMask_of_counts rule kept a b c d short long counts
        exact same.trans (side.stable.quiet inactive)
  have after : begin.turns rule key (turns ++ [.record flow false]) =
      (⟨here.windows.add flow, kept.core⟩, (begin.turns rule key turns).2) := by
    rw [Replay.turns_append]
    simp only [Replay.turns, Replay.turn, if_neg quiet, List.append_nil]
    rw [side.windows, side.core]
  constructor
  · rw [after]
    rfl
  · rw [after]
  · rw [after]
    exact side.contents
  · exact side.clock
  · exact side.started
  · exact side.held
  · exact side.stable
  · exact side.mirrors
  · exact side.told

/-- Passing all records at the head of the flight that sent nothing. -/
theorem skip_through (flight : List Parcel)
    (side : RuleSide rule key begin state kept emitted turns here)
    (carries : Carries key here flight) :
    ∃ next, RuleSide rule key begin state kept emitted (turns ++ (skip flight).1) next ∧
      Carries key next (skip flight).2 ∧
      Runs.run Position.pass next (skip flight).2 = Runs.run Position.pass here flight ∧
      (skip flight).2.filterMap Parcel.set? = flight.filterMap Parcel.set? := by
  induction flight generalizing turns here with
  | nil =>
      refine ⟨here, ?_, trivial, rfl, rfl⟩
      rw [skip, List.append_nil]
      · exact side
      · intro _ _ none
        cases none
  | cons parcel flight ih =>
      match parcel with
      | .record flow none =>
          obtain ⟨next, nextSide, carried, final, sets⟩ := ih (side.skipped flow carries.1) carries.2
          rw [List.append_assoc] at nextSide
          exact ⟨next, nextSide, carried, final, sets⟩
      | .record flow (some set) =>
          refine ⟨here, ?_, carries, rfl, rfl⟩
          rw [skip, List.append_nil]
          · exact side
          · intro _ _ none
            cases none
      | .tick set =>
          refine ⟨here, ?_, carries, rfl, rfl⟩
          rw [skip, List.append_nil]
          · exact side
          · intro _ _ none
            cases none

theorem replayed (side : RuleSide rule key begin state kept emitted turns here)
    (parcel : Parcel) (set : ViewSet) (carried : parcel.set? = some set)
    (fits : here.Fits key parcel) (nowMs : Int64) (a b : View) (pair : set.views = [a, b])
    (clock : (PortScanRule.received kept set nowMs).clockMs = set.windowEndMs) :
    begin.turns rule key (turns ++ turnOf rule (PortScanRule.received kept set nowMs) parcel) =
      (⟨(here.pass parcel).windows, (rule.onViews kept set nowMs).1.core⟩,
        (emitted ++ (rule.onViews kept set nowMs).2).map Transition.content) := by
  have views := received_pair kept set nowMs a b pair
  have evaluated : rule.onViews kept set nowMs = rule.evaluate
      (PortScanRule.received kept set nowMs) set.windowEndMs set.ingest nowMs := by
    rw [PortScanRule.onViews, clock]
  have dated : kept.core.setViews set.views = (PortScanRule.received kept set nowMs).dated 0 0 := by
    rw [pair, views]
    rfl
  obtain ⟨after, contents⟩ := rule.evaluate_dated (PortScanRule.received kept set nowMs) 0 0
    set.windowEndMs 0 0 set.ingest nowMs
  have status : (PortScanRule.received kept set nowMs).status = kept.core.status := by
    rw [views]
    rfl
  have still : ¬ rule.Turns (PortScanRule.received kept set nowMs) set.windowEndMs →
      (rule.onViews kept set nowMs).1.core = kept.core ∧
        (rule.onViews kept set nowMs).2 = [] := by
    intro quiet
    rw [evaluated, rule.evaluate_still _ _ _ _ quiet, views]
    exact ⟨rfl, rfl⟩
  rw [← dated, ← evaluated] at after contents
  rw [Replay.turns_append, List.map_append, side.contents]
  have before : (begin.turns rule key turns).1 = ⟨here.windows, kept.core⟩ := by
    rw [← side.windows, ← side.core]
  rw [before]
  cases parcel with
  | record flow sent =>
      have same : sent = some set := carried
      subst same
      have isSet : set = viewSet key (here.windows.add flow) := fits.1
      have isViews : (here.windows.add flow).views key = set.views := by
        rw [isSet]
        rfl
      have isClock : (here.windows.add flow).clockMs = set.windowEndMs := by
        rw [isSet]
        rfl
      have mask : rule.overMask ((PortScanRule.received kept set nowMs).dated 0 0) =
        rule.overMask (PortScanRule.received kept set nowMs) := rfl
      have evaluates : (decide ((PortScanRule.received kept set nowMs).status = .active ∧
            rule.Turns (PortScanRule.received kept set nowMs) set.windowEndMs) = true ∨
          (kept.core.status ≠ .active ∧ rule.overMask (kept.core.setViews set.views) ≠ 0)) ↔
          rule.Turns (PortScanRule.received kept set nowMs) set.windowEndMs := by
        rw [dated, mask, decide_eq_true_eq, ← status]
        by_cases active : (PortScanRule.received kept set nowMs).status = .active
        · simp [active]
        · simp [PortScanRule.Turns, active]
      rw [turnOf, clock]
      simp only [Replay.turns, Replay.turn, isViews, isClock, List.append_nil]
      by_cases turning : rule.Turns (PortScanRule.received kept set nowMs) set.windowEndMs
      · rw [if_pos (evaluates.mpr turning), after, contents]
        rfl
      · obtain ⟨core, nothing⟩ := still turning
        rw [if_neg (mt evaluates.mp turning), nothing, core, List.map_nil]
        rfl
  | tick sent =>
      have same : sent = set := Option.some.inj carried
      subst same
      have isViews : (here.windows.advanceTo sent.windowEndMs).1.views key = sent.views := by
        nth_rewrite 2 [fits.1]
        rfl
      rw [turnOf, clock]
      by_cases turning : rule.Turns (PortScanRule.received kept sent nowMs) sent.windowEndMs
      · rw [if_pos turning]
        simp only [Replay.turns, Replay.turn, isViews, after, contents, List.append_nil]
        rfl
      · obtain ⟨core, nothing⟩ := still turning
        rw [if_neg turning, nothing, core, List.map_nil]
        rfl

theorem delivered (side : RuleSide rule key begin state kept emitted turns here)
    (valid : rule.config.Valid) (parcel : Parcel) (set : ViewSet) (carried : parcel.set? = some set)
    (fits : here.Fits key parcel) (nowMs : Int64) (d : PortScanDetector) (isRule : d.rule = rule)
    (isState : d.state = state) (remembers : rule.Remembers state kept set) :
    RuleSide rule key begin (d.processElement set nowMs).1.state (rule.onViews kept set nowMs).1
      (emitted ++ (d.processElement set nowMs).2)
      (turns ++ turnOf rule (PortScanRule.received kept set nowMs) parcel) (here.pass parcel) := by
  subst isRule isState
  have whole : set.views.length = 2 ∧ here.endMs ≤ set.windowEndMs ∧ 0 < set.windowEndMs ∧
      here.pass parcel = ⟨(here.pass parcel).windows, set.views, set.windowEndMs⟩ := by
    cases parcel with
    | record flow sent =>
        have same : sent = some set := carried
        subst same
        exact ⟨fits.2.1, fits.2.2.1, fits.2.2.2, rfl⟩
    | tick sent =>
        have same : sent = set := Option.some.inj carried
        subst same
        exact ⟨fits.2.1, fits.2.2.1, fits.2.2.2, rfl⟩
  obtain ⟨length, later, positive, passed⟩ := whole
  obtain ⟨a, b, pair⟩ := List.length_eq_two.mp length
  obtain ⟨sent, mirrors⟩ := d.processElement_mirrors valid kept set nowMs a b pair side.mirrors
    remembers
  have clock : (PortScanRule.received kept set nowMs).clockMs = set.windowEndMs := by
    rw [received_clock kept set nowMs a b pair, side.clock]
    exact if_pos later
  have notLeast : set.windowEndMs ≠ Int64.minValue := by
    intro least
    rw [least] at positive
    exact absurd positive (by decide)
  have views := received_pair kept set nowMs a b pair
  have evaluated : d.rule.onViews kept set nowMs =
      d.rule.evaluate (PortScanRule.received kept set nowMs) set.windowEndMs set.ingest nowMs := by
    rw [PortScanRule.onViews, clock]
  obtain ⟨keptShort, keptLong, keptClock⟩ := d.rule.evaluate_keeps
    (PortScanRule.received kept set nowMs) set.windowEndMs set.ingest nowMs
  rw [← evaluated] at keptShort keptLong keptClock
  obtain ⟨episodes, told, all⟩ := side.told
  have nextTold := d.rule.apply_told valid kept (.onViews set nowMs) told side.stable.quiet
  have replayed := side.replayed parcel set carried fits nowMs a b pair clock
  constructor
  · rw [replayed]
  · rw [replayed]
  · rw [sent, replayed]
  · rw [keptClock, clock, passed]
  · intro _
    rw [keptClock, clock]
    exact notLeast
  · right
    refine ⟨a, b, ?_, ?_, ?_⟩
    · rw [passed, pair]
    · rw [keptShort, views]
    · rw [keptLong, views]
  · rw [evaluated]
    exact d.rule.evaluate_stable valid _ _ _ _ notLeast
  · exact mirrors
  · obtain ⟨longer, finalTold, flat⟩ := nextTold
    refine ⟨longer, finalTold, ?_⟩
    rw [flat, all, sent]
    rfl

theorem fired (side : RuleSide rule key begin state kept emitted turns here)
    (valid : rule.config.Valid) (timestamp : Int64) (d : PortScanDetector)
    (isRule : d.rule = rule) (isState : d.state = state) :
    RuleSide rule key begin (d.fire timestamp).1.state (rule.onClock kept timestamp).1
      (emitted ++ (d.fire timestamp).2)
      (turns ++ if rule.Turns kept (kept.silentClock timestamp)
        then [.clock (kept.silentClock timestamp)] else []) here := by
  subst isRule isState
  obtain ⟨sent, mirrors⟩ := d.fire_mirrors valid kept timestamp side.mirrors side.stable.quiet
  obtain ⟨episodes, told, all⟩ := side.told
  obtain ⟨longer, nextTold, flat⟩ :=
    d.rule.apply_told valid kept (.onClock timestamp) told side.stable.quiet
  have finalTold : ∃ episodes, Told d.rule (d.rule.onClock kept timestamp).1 episodes ∧
      episodes.flatMap Episode.transitions = emitted ++ (d.fire timestamp).2 := by
    refine ⟨longer, nextTold, ?_⟩
    rw [flat, all, sent]
    rfl
  by_cases turning : d.rule.Turns kept (kept.silentClock timestamp)
  · obtain ⟨active, settled⟩ := (side.stable.turns_iff d.rule _).mp turning
    have evaluated : d.rule.onClock kept timestamp =
        d.rule.evaluate kept (kept.silentClock timestamp) 0 timestamp :=
      if_neg (side.started active)
    obtain ⟨closed, contents⟩ := side.stable.evaluate_closes d.rule active _ 0 timestamp settled
    rw [← evaluated] at closed contents
    rw [if_pos turning]
    have after : begin.turns d.rule key (turns ++ [.clock (kept.silentClock timestamp)]) =
        (⟨here.windows, (d.rule.onClock kept timestamp).1.core⟩,
          (emitted ++ (d.rule.onClock kept timestamp).2).map Transition.content) := by
      rw [Replay.turns_append, List.map_append, side.contents, contents, closed]
      simp only [Replay.turns, Replay.turn, List.append_nil]
      rw [side.windows, side.core]
      rfl
    constructor
    · rw [after]
    · rw [after]
    · rw [sent, after]
    · rw [closed]
      exact side.clock
    · rw [closed]
      exact RuleStatus.noConfusion
    · rw [closed]
      exact side.held
    · rw [closed]
      exact ⟨fun _ => d.rule.clear_overMask kept valid.bounded settled.1, RuleStatus.noConfusion,
        RuleStatus.noConfusion⟩
    · exact mirrors
    · exact finalTold
  · have still : d.rule.onClock kept timestamp = (kept, []) := by
      unfold PortScanRule.onClock
      split
      · rfl
      · exact d.rule.evaluate_still _ _ _ _ turning
    rw [if_neg turning, List.append_nil]
    rw [still] at sent mirrors finalTold ⊢
    rw [sent, List.append_nil] at finalTold ⊢
    exact ⟨side.windows, side.core, side.contents, side.clock, side.started, side.held,
      side.stable, mirrors, finalTold⟩

theorem start (rule : PortScanRule) (valid : rule.config.Valid) (key : String)
    (shortMs longMs : Int64) :
    RuleSide rule key (.start shortMs longMs) none .new [] []
      ⟨.new [shortMs, longMs], [], Int64.minValue⟩ where
  windows := rfl
  core := rfl
  contents := rfl
  clock := rfl
  started := RuleStatus.noConfusion
  held := Or.inl ⟨rfl, rfl, rfl⟩
  stable := rule.new_stable valid
  mirrors := ⟨RuleStatus.noConfusion, rule.new_overMask valid.bounded⟩
  told := ⟨[], Or.inl ⟨rfl, rfl⟩, rfl⟩

end RuleSide

end PiAgents.Detection
