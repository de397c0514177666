import PiAgents.Detection.PipelineRun

/-! The views operator of an undisturbed run against the replay: its windows are those of the
replay advanced to the furthest clock, and its view sets are views of the replay. -/

namespace PiAgents.Detection

/-- The views operator beside the end of the flight. -/
structure ViewsSide (shortMs longMs : Int64) (key : String) (views : RollingViews)
    (reachedMs : Int64) (last : Position) : Prop where
  horizonsMs : views.horizonsMs = [shortMs, longMs]
  currentKey : views.currentKey = key
  lengths : last.windows.horizons.map Horizon.lengthMs = [shortMs, longMs]
  started : last.windows = .new [shortMs, longMs] ∨ last.windows.Forward
  behind : last.windows.clockMs ≤ reachedMs
  sent : last.endMs ≤ reachedMs
  counts : ∀ sent ∈ views.lastViews, failedCounts sent = failedCounts last.held
  windows : match views.windows with
    | none => (last.windows.advanceTo reachedMs).1.isEmpty
    | some w => w = (last.windows.advanceTo reachedMs).1 ∧ last.windows.Forward

theorem viewsChanged_counts {previous current : List View}
    (same : RollingViews.viewsChanged (some previous) current = false) :
    failedCounts current = failedCounts previous := by
  simp only [RollingViews.viewsChanged, decide_eq_false_iff_not, not_or, not_not] at same
  obtain ⟨length, all⟩ := same
  apply List.ext_getElem
  · simp only [failedCounts, List.length_map, length]
  · intro i here there
    simp only [failedCounts, List.length_map] at here there
    simp only [failedCounts, List.getElem_map]
    rw [List.all_eq_true] at all
    have agree := all (current[i].sameCounts previous[i])
      (List.mem_iff_getElem.mpr ⟨i, by simp [here, there], by simp⟩)
    simp only [id, View.sameCounts, Bool.and_eq_true, beq_iff_eq] at agree
    exact agree.2

theorem views_length (w : DeviceWindows) (key : String) (shortMs longMs : Int64)
    (lengths : w.horizons.map Horizon.lengthMs = [shortMs, longMs]) : (w.views key).length = 2 := by
  have two := congrArg List.length lengths
  rw [List.length_map] at two
  rw [DeviceWindows.views, List.length_map, two]
  rfl

namespace RollingViews

variable (s : RollingViews)

theorem processElement_sent (flow : FlowRecord) (nowMs : Int64) :
    (s.processElement flow nowMs).2 =
      if viewsChanged s.lastViews ((s.current.add flow).views s.currentKey)
      then [viewSet s.currentKey (s.current.add flow)] else [] := rfl

theorem processElement_fields (flow : FlowRecord) (nowMs : Int64) :
    (s.processElement flow nowMs).1.windows = some (s.current.add flow) ∧
      (s.processElement flow nowMs).1.lastViews =
        some ((s.current.add flow).views s.currentKey) ∧
      (s.processElement flow nowMs).1.horizonsMs = s.horizonsMs ∧
      (s.processElement flow nowMs).1.currentKey = s.currentKey := ⟨rfl, rfl, rfl, rfl⟩

theorem fire_sent (timestamp : Int64) (w : DeviceWindows) (present : s.windows = some w) :
    (s.fire timestamp).2 =
      if (w.advanceTo (s.silentClock w timestamp)).2 ∧ viewsChanged s.lastViews
        ((w.advanceTo (s.silentClock w timestamp)).1.views s.currentKey)
      then [viewSet s.currentKey (w.advanceTo (s.silentClock w timestamp)).1] else [] := by
  have clock : ({ s with timers := s.timers.erase timestamp, pendingTimer := none } :
      RollingViews).ticked timestamp = some (w.advanceTo (s.silentClock w timestamp)) := by
    rw [ticked, present]
    rfl
  simp only [fire, onTimer, clock]
  cases (w.advanceTo (s.silentClock w timestamp)).2
  · rfl
  · simp only [tickTo, emitChanged, if_true, true_and]
    rfl

theorem fire_fields (timestamp : Int64) (w : DeviceWindows) (present : s.windows = some w) :
    (s.fire timestamp).1.lastViews =
        (if (w.advanceTo (s.silentClock w timestamp)).1.isEmpty then none
          else if (w.advanceTo (s.silentClock w timestamp)).2
          then some ((w.advanceTo (s.silentClock w timestamp)).1.views s.currentKey)
          else s.lastViews) ∧
      (s.fire timestamp).1.horizonsMs = s.horizonsMs ∧
      (s.fire timestamp).1.currentKey = s.currentKey := by
  rw [fire_some s timestamp w present]
  simp only [settle]
  split
  · cases (w.advanceTo (s.silentClock w timestamp)).2
    · exact ⟨rfl, rfl, rfl⟩
    · exact ⟨rfl, rfl, rfl⟩
  · cases (w.advanceTo (s.silentClock w timestamp)).2
    · exact ⟨rfl, rfl, rfl⟩
    · exact ⟨rfl, rfl, rfl⟩

end RollingViews

namespace ViewsSide

variable {shortMs longMs : Int64} {key : String} {views : RollingViews} {reachedMs : Int64}
  {last : Position}

theorem added (side : ViewsSide shortMs longMs key views reachedMs last) (flow : FlowRecord)
    (undisturbed : reachedMs < flow.eventTimeMs ∨
      (views.windows.isSome ∧ last.windows.clockMs = reachedMs)) :
    views.current.add flow = last.windows.add flow := by
  have windows := side.windows
  unfold RollingViews.current
  cases held : views.windows with
  | none =>
      rw [held] at windows undisturbed
      have newer : reachedMs < flow.eventTimeMs := by
        rcases undisturbed with newer | ⟨some, -⟩
        · exact newer
        · cases some
      rw [Option.getD_none, side.horizonsMs]
      rcases side.started with fresh | forward
      · rw [fresh]
      · rw [← side.lengths]
        exact last.windows.add_emptied forward reachedMs flow side.behind newer windows
  | some w =>
      rw [held] at windows undisturbed
      obtain ⟨advanced, forward⟩ := windows
      rw [Option.getD_some, advanced]
      rcases undisturbed with newer | ⟨-, unmoved⟩
      · exact last.windows.add_advanced forward reachedMs flow side.behind newer
      · rw [DeviceWindows.advance_past _ _ (unmoved ▸ Int64.le_refl _)]

theorem add_lengths (side : ViewsSide shortMs longMs key views reachedMs last)
    (flow : FlowRecord) :
    (last.windows.add flow).horizons.map Horizon.lengthMs = [shortMs, longMs] := by
  rw [last.windows.add_lengths flow, side.lengths]

theorem add_forward (side : ViewsSide shortMs longMs key views reachedMs last)
    (positiveShort : 0 < shortMs) (positiveLong : 0 < longMs) (flow : FlowRecord)
    (positive : 0 < flow.eventTimeMs) : (last.windows.add flow).Forward := by
  apply last.windows.add_forward flow
  · rcases side.started with fresh | forward
    · rw [fresh]
      intro h member
      obtain ⟨length, -, rfl⟩ := List.mem_map.mp member
      exact Horizon.new_tracks length
    · exact forward.tracked
  · intro h member
    have length : h.lengthMs ∈ last.windows.horizons.map Horizon.lengthMs :=
      List.mem_map_of_mem member
    rw [side.lengths] at length
    rcases List.mem_cons.mp length with short | length
    · exact short ▸ positiveShort
    · exact List.mem_singleton.mp length ▸ positiveLong
  · exact positive

theorem record (side : ViewsSide shortMs longMs key views reachedMs last)
    (positiveShort : 0 < shortMs) (positiveLong : 0 < longMs) (flow : FlowRecord) (nowMs : Int64)
    (positive : 0 < flow.eventTimeMs) (undisturbed : reachedMs < flow.eventTimeMs ∨
      (views.windows.isSome ∧ last.windows.clockMs = reachedMs)) :
    last.Fits key (.record flow (views.processElement flow nowMs).2.head?) ∧
      ViewsSide shortMs longMs key (views.processElement flow nowMs).1
        (mathMax reachedMs (views.processElement flow nowMs).1.current.clockMs)
        (last.pass (.record flow (views.processElement flow nowMs).2.head?)) := by
  obtain ⟨windows, lastViews, horizonsMs, currentKey⟩ := views.processElement_fields flow nowMs
  have sets := views.processElement_sent flow nowMs
  have added := side.added flow undisturbed
  rw [added] at windows lastViews sets
  rw [side.currentKey] at lastViews sets currentKey
  rw [side.horizonsMs] at horizonsMs
  have current : (views.processElement flow nowMs).1.current = last.windows.add flow := by
    rw [RollingViews.current, windows, Option.getD_some]
  have forward := side.add_forward positiveShort positiveLong flow positive
  have length := views_length _ key shortMs longMs (side.add_lengths flow)
  have clock := last.windows.add_clock flow
  have caught : reachedMs ≤ (last.windows.add flow).clockMs := by
    rw [Int64.le_iff_toInt_le]
    rcases undisturbed with newer | ⟨-, unmoved⟩
    · rw [Int64.lt_iff_toInt_lt] at newer
      omega
    · rw [← unmoved]
      omega
  have reached : mathMax reachedMs (last.windows.add flow).clockMs =
      (last.windows.add flow).clockMs := if_pos caught
  rw [current, reached]
  have moved : (last.windows.add flow).advanceTo (last.windows.add flow).clockMs =
      (last.windows.add flow, false) := DeviceWindows.advance_past _ _ (Int64.le_refl _)
  by_cases changed : RollingViews.viewsChanged views.lastViews ((last.windows.add flow).views key)
  · rw [if_pos changed] at sets
    rw [sets]
    refine ⟨⟨rfl, length, Int64.le_trans side.sent caught, forward.clock⟩, ?_⟩
    constructor
    · exact horizonsMs
    · exact currentKey
    · exact side.add_lengths flow
    · exact Or.inr forward
    · exact Int64.le_refl _
    · exact Int64.le_refl _
    · intro sent member
      rw [lastViews, Option.mem_some_iff] at member
      rw [← member]
      rfl
    · rw [windows]
      exact ⟨(congrArg Prod.fst moved).symm, forward⟩
  · rw [if_neg changed] at sets
    rw [sets]
    have kept : failedCounts ((last.windows.add flow).views key) = failedCounts last.held := by
      cases previous : views.lastViews with
      | none =>
          rw [previous] at changed
          exact absurd rfl changed
      | some sent =>
          rw [previous] at changed
          rw [viewsChanged_counts (Bool.eq_false_iff.mpr changed)]
          exact side.counts sent previous
    refine ⟨⟨kept, length⟩, ?_⟩
    constructor
    · exact horizonsMs
    · exact currentKey
    · exact side.add_lengths flow
    · exact Or.inr forward
    · exact Int64.le_refl _
    · exact Int64.le_trans side.sent caught
    · intro sent member
      rw [lastViews, Option.mem_some_iff] at member
      rw [← member]
      exact kept
    · rw [windows]
      exact ⟨(congrArg Prod.fst moved).symm, forward⟩

theorem ticked_eq (side : ViewsSide shortMs longMs key views reachedMs last) (timestamp : Int64)
    (w : DeviceWindows) (present : views.windows = some w) :
    (w.advanceTo (views.silentClock w timestamp)).1 =
        (last.windows.advanceTo (mathMax reachedMs (views.silentClock w timestamp))).1 ∧
      (w.advanceTo (views.silentClock w timestamp)).1.clockMs =
        mathMax reachedMs (views.silentClock w timestamp) := by
  generalize views.silentClock w timestamp = silentMs
  have windows := side.windows
  rw [present] at windows
  obtain ⟨advanced, forward⟩ := windows
  have behind := side.behind
  have clock := last.windows.advance_clock reachedMs
  rw [← advanced] at clock
  have here : w.clockMs = reachedMs := by
    rw [Int64.le_iff_toInt_le] at behind
    apply Int64.toInt_inj.mp
    omega
  constructor
  · rw [mathMax]
    split
    · next further =>
        rw [advanced]
        exact last.windows.advance_twice forward reachedMs _ further
    · next past =>
        rw [DeviceWindows.advance_past w _
          (here ▸ Int64.le_of_lt (Int64.not_le.mp past)), advanced]
  · apply Int64.toInt_inj.mp
    rw [w.advance_clock, mathMax_toInt, here]

theorem timer_unset (side : ViewsSide shortMs longMs key views reachedMs last) (timestamp : Int64)
    (absent : views.windows = none) : (views.fire timestamp).2 = [] ∧
      ViewsSide shortMs longMs key (views.fire timestamp).1 reachedMs last := by
  have silent : views.fire timestamp =
      ({ views with timers := views.timers.erase timestamp, pendingTimer := none }, []) := by
    simp only [RollingViews.fire, RollingViews.onTimer, RollingViews.ticked, absent,
      Option.map_none]
  rw [silent]
  refine ⟨rfl, ?_⟩
  constructor
  · exact side.horizonsMs
  · exact side.currentKey
  · exact side.lengths
  · exact side.started
  · exact side.behind
  · exact side.sent
  · exact side.counts
  · exact side.windows

section Timer

variable (side : ViewsSide shortMs longMs key views reachedMs last) (timestamp : Int64)
  (w : DeviceWindows) (present : views.windows = some w)

include side present

theorem forward : last.windows.Forward := by
  have held := side.windows
  rw [present] at held
  exact held.2

/-- What a timer leaves of the windows are those of the replay at the clock it has moved to. -/
theorem timer_windows : match (views.fire timestamp).1.windows with
    | none => (last.windows.advanceTo
        (mathMax reachedMs (views.silentClock w timestamp))).1.isEmpty
    | some left => left = (last.windows.advanceTo
        (mathMax reachedMs (views.silentClock w timestamp))).1 ∧ last.windows.Forward := by
  rw [(views.fire_windows timestamp w present).1, ← (side.ticked_eq timestamp w present).1]
  by_cases empty : (w.advanceTo (views.silentClock w timestamp)).1.isEmpty
  · rw [if_pos empty]
    exact empty
  · rw [if_neg empty]
    exact ⟨rfl, side.forward w present⟩

theorem timer_side {moved : Position} (windows : moved.windows = last.windows)
    (sent : moved.endMs ≤ mathMax reachedMs (views.silentClock w timestamp))
    (counts : ∀ sent ∈ (views.fire timestamp).1.lastViews,
      failedCounts sent = failedCounts moved.held) :
    ViewsSide shortMs longMs key (views.fire timestamp).1
      (mathMax reachedMs (views.silentClock w timestamp)) moved := by
  obtain ⟨-, horizonsMs, currentKey⟩ := views.fire_fields timestamp w present
  constructor
  · exact horizonsMs.trans side.horizonsMs
  · exact currentKey.trans side.currentKey
  · rw [windows]
    exact side.lengths
  · rw [windows]
    exact side.started
  · rw [windows]
    exact Int64.le_trans side.behind (le_mathMax_left _ _)
  · exact sent
  · exact counts
  · rw [windows]
    exact side.timer_windows timestamp w present

theorem timer_sends (emits : (w.advanceTo (views.silentClock w timestamp)).2 ∧
      RollingViews.viewsChanged views.lastViews
        ((w.advanceTo (views.silentClock w timestamp)).1.views key)) :
    Carries key last ((views.fire timestamp).2.map .tick) ∧
      ViewsSide shortMs longMs key (views.fire timestamp).1
        (mathMax reachedMs (views.silentClock w timestamp))
        (Runs.run Position.pass last ((views.fire timestamp).2.map .tick)) := by
  obtain ⟨moved, clock⟩ := side.ticked_eq timestamp w present
  have sets := views.fire_sent timestamp w present
  obtain ⟨lastViews, -, -⟩ := views.fire_fields timestamp w present
  rw [side.currentKey] at sets lastViews
  rw [if_pos emits] at sets
  have further : reachedMs ≤ mathMax reachedMs (views.silentClock w timestamp) := le_mathMax_left _ _
  have lengths : (w.advanceTo (views.silentClock w timestamp)).1.horizons.map Horizon.lengthMs =
      [shortMs, longMs] := by
    rw [moved, last.windows.advance_lengths, side.lengths]
  have windowEnd : (viewSet key (w.advanceTo (views.silentClock w timestamp)).1).windowEndMs =
      mathMax reachedMs (views.silentClock w timestamp) := clock
  rw [sets]
  refine ⟨⟨⟨?_, views_length _ key shortMs longMs lengths, ?_, ?_⟩, trivial⟩,
    side.timer_side timestamp w present rfl ?_ ?_⟩
  · rw [windowEnd, moved]
  · rw [windowEnd]
    exact Int64.le_trans side.sent further
  · rw [windowEnd]
    exact Int64.lt_of_lt_of_le (side.forward w present).clock
      (Int64.le_trans side.behind further)
  · exact windowEnd ▸ Int64.le_refl _
  · intro sent member
    rw [lastViews, if_pos emits.1] at member
    split at member
    · cases member
    · rw [Option.mem_some_iff] at member
      exact member ▸ rfl

theorem timer_quiet (quiet : ¬ ((w.advanceTo (views.silentClock w timestamp)).2 ∧
      RollingViews.viewsChanged views.lastViews
        ((w.advanceTo (views.silentClock w timestamp)).1.views key))) :
    Carries key last ((views.fire timestamp).2.map .tick) ∧
      ViewsSide shortMs longMs key (views.fire timestamp).1
        (mathMax reachedMs (views.silentClock w timestamp))
        (Runs.run Position.pass last ((views.fire timestamp).2.map .tick)) := by
  have sets := views.fire_sent timestamp w present
  obtain ⟨lastViews, -, -⟩ := views.fire_fields timestamp w present
  rw [side.currentKey] at sets lastViews
  rw [if_neg quiet] at sets
  rw [sets]
  refine ⟨trivial, side.timer_side timestamp w present rfl
    (Int64.le_trans side.sent (le_mathMax_left _ _)) ?_⟩
  intro sent member
  rw [lastViews] at member
  split at member
  · cases member
  · split at member
    · next changed =>
        rw [Option.mem_some_iff] at member
        cases previous : views.lastViews with
        | none =>
            rw [previous] at quiet
            exact absurd ⟨changed, rfl⟩ quiet
        | some before =>
            rw [previous] at quiet
            have same := Bool.eq_false_iff.mpr fun differs => quiet ⟨changed, differs⟩
            rw [← member, viewsChanged_counts same]
            exact side.counts before previous
    · exact side.counts sent member

end Timer

theorem timer (side : ViewsSide shortMs longMs key views reachedMs last) (timestamp : Int64) :
    Carries key last ((views.fire timestamp).2.map .tick) ∧
      ViewsSide shortMs longMs key (views.fire timestamp).1
        (match views.ticked timestamp with
          | some moved => mathMax reachedMs moved.1.clockMs
          | none => reachedMs)
        (Runs.run Position.pass last ((views.fire timestamp).2.map .tick)) := by
  cases present : views.windows with
  | none =>
      have unticked : views.ticked timestamp = none := by
        rw [RollingViews.ticked, present, Option.map_none]
      obtain ⟨silent, still⟩ := side.timer_unset timestamp present
      rw [silent, unticked]
      exact ⟨trivial, still⟩
  | some w =>
      have ticked : views.ticked timestamp =
          some (w.advanceTo (views.silentClock w timestamp)) := by
        rw [RollingViews.ticked, present, Option.map_some]
      have again : mathMax reachedMs (w.advanceTo (views.silentClock w timestamp)).1.clockMs =
          mathMax reachedMs (views.silentClock w timestamp) := by
        rw [(side.ticked_eq timestamp w present).2]
        exact if_pos (le_mathMax_left _ _)
      rw [ticked]
      simp only
      rw [again]
      by_cases emits : (w.advanceTo (views.silentClock w timestamp)).2 ∧
          RollingViews.viewsChanged views.lastViews
            ((w.advanceTo (views.silentClock w timestamp)).1.views key)
      · exact side.timer_sends timestamp w present emits
      · exact side.timer_quiet timestamp w present emits

theorem start : ViewsSide shortMs longMs key (.new [shortMs, longMs] key) Int64.minValue
    ⟨.new [shortMs, longMs], [], Int64.minValue⟩ where
  horizonsMs := rfl
  currentKey := rfl
  lengths := rfl
  started := Or.inl rfl
  behind := Int64.le_refl _
  sent := Int64.le_refl _
  counts := by
    intro sent none
    cases none
  windows := rfl

end ViewsSide

end PiAgents.Detection
