import PiAgents.Lib.Runs
import PiAgents.Detection.RunViews

/-! The view sets that `RollingViews` sends over a run: the last one has the aggregates of the
windows as they are, and none repeats the aggregates of the one before it. -/

namespace PiAgents.Detection

def View.counts (v : View) : Int32 × Int64 × Int32 × Int32 × Int32 :=
  (v.flows, v.bytes, v.distinctRemoteIps, v.distinctTargets, v.failedTargets)

def aggregates (views : List View) : List (Int32 × Int64 × Int32 × Int32 × Int32) :=
  views.map View.counts

def AllZero (views : List View) : Prop := ∀ v ∈ views, v.counts = (0, 0, 0, 0, 0)

theorem View.sameCounts_iff (v o : View) : v.sameCounts o = true ↔ v.counts = o.counts := by
  simp only [View.sameCounts, View.counts, Bool.and_eq_true, beq_iff_eq, Prod.mk.injEq, and_assoc]

theorem viewsChanged_iff (previous current : List View) :
    RollingViews.viewsChanged (some previous) current = true ↔
      aggregates current ≠ aggregates previous := by
  simp only [RollingViews.viewsChanged, decide_eq_true_eq]
  rw [← not_iff_not, not_or, not_not, not_not, not_not]
  constructor
  · rintro ⟨length, all⟩
    apply List.ext_getElem
    · simp only [aggregates, List.length_map, length]
    · intro i here there
      simp only [aggregates, List.length_map] at here there
      simp only [aggregates, List.getElem_map]
      rw [List.all_eq_true] at all
      have agree := all (current[i].sameCounts previous[i])
        (List.mem_iff_getElem.mpr ⟨i, by simp [here, there], by simp⟩)
      exact (View.sameCounts_iff _ _).mp agree
  · intro same
    have length := congrArg List.length same
    simp only [aggregates, List.length_map] at length
    refine ⟨length.symm, ?_⟩
    rw [List.all_eq_true]
    intro agree member
    obtain ⟨i, bound, rfl⟩ := List.mem_iff_getElem.mp member
    simp only [List.length_zipWith] at bound
    have one := congrArg (fun counts : List _ => counts[i]?) same
    have inCurrent : i < current.length := by omega
    have inPrevious : i < previous.length := by omega
    simp only [aggregates, List.getElem?_map, List.getElem?_eq_getElem inCurrent,
      List.getElem?_eq_getElem inPrevious, Option.map_some, Option.some.injEq] at one
    simp only [List.getElem_zipWith, id]
    exact (View.sameCounts_iff _ _).mpr one

namespace DeviceWindows

theorem advance_aggregates (w : DeviceWindows) (clockMs : Int64) (key : String)
    (nothing : (w.advanceTo clockMs).2 = false) :
    aggregates ((w.advanceTo clockMs).1.views key) = aggregates (w.views key) := by
  unfold advanceTo at nothing ⊢
  split at nothing
  · next past => rw [if_pos past]
  · next newer =>
      rw [if_neg newer]
      simp only [aggregates, views, List.map_map]
      apply List.map_congr_left
      intro h member
      have same := List.any_eq_false.mp nothing h member
      simp only [Function.comp_apply, h.expire_unchanged clockMs (Bool.eq_false_iff.mpr same)]
      rfl

theorem emptied_zero (w : DeviceWindows) (tracked : w.Tracked) (empty : w.isEmpty)
    (key : String) : AllZero (w.views key) := by
  intro v member
  obtain ⟨h, inside, rfl⟩ := List.mem_map.mp member
  have nothing := List.isEmpty_iff.mp (List.all_eq_true.mp empty h inside)
  rw [(tracked h inside).emptied nothing]
  rfl

theorem add_nonempty (w : DeviceWindows) (record : FlowRecord) (some : w.horizons ≠ [])
    (positive : 0 < record.eventTimeMs) (lengths : ∀ h ∈ w.horizons, 0 < h.lengthMs)
    (holds : w.clockMs < record.eventTimeMs ∨ w.isEmpty = false) :
    (w.add record).isEmpty = false := by
  have order : w.clockMs < record.eventTimeMs ∨ record.eventTimeMs ≤ w.clockMs :=
    (Int64.lt_or_le _ _)
  rw [isEmpty, List.all_eq_false]
  rcases order with newer | older
  · have clock : mathMax w.clockMs record.eventTimeMs = record.eventTimeMs :=
      if_pos (Int64.le_of_lt newer)
    obtain ⟨h, inside⟩ := List.exists_mem_of_ne_nil _ some
    have covered : record.eventTimeMs - (h.expire record.eventTimeMs).1.lengthMs <
        record.eventTimeMs := by
      have cutoff := toInt_cutoff record.eventTimeMs h.lengthMs positive (lengths h inside)
      have length := lengths h inside
      rw [h.expire_length, Int64.lt_iff_toInt_lt, cutoff]
      rw [Int64.lt_iff_toInt_lt] at length
      have zero : (0 : Int64).toInt = 0 := rfl
      omega
    refine ⟨(h.expire record.eventTimeMs).1.add (Contribution.of record), ?_, ?_⟩
    · have joined : (w.add record).horizons = (w.horizons.map fun h =>
          (h.expire record.eventTimeMs).1).map fun h =>
            if record.eventTimeMs - h.lengthMs < record.eventTimeMs
            then h.add (Contribution.of record) else h := by
        have time : (Contribution.of record).eventTimeMs = record.eventTimeMs := rfl
        simp only [add, time, clock, advance_newer w _ newer]
      rw [joined, List.map_map]
      refine List.mem_map.mpr ⟨h, inside, ?_⟩
      exact if_pos covered
    · intro empty
      have member : Contribution.of record ∈
          ((h.expire record.eventTimeMs).1.add (Contribution.of record)).contributions :=
        (mem_insertFromTail).mpr (Or.inl rfl)
      rw [List.isEmpty_iff.mp empty] at member
      cases member
  · have full : w.isEmpty = false := by
      rcases holds with newer | full
      · exact absurd newer (Int64.not_lt.mpr older)
      · exact full
    rw [isEmpty, List.all_eq_false] at full
    obtain ⟨h, inside, nonempty⟩ := full
    have clock : mathMax w.clockMs record.eventTimeMs = w.clockMs := by
      rw [mathMax]
      split
      · next newer => exact Int64.le_antisymm older newer
      · rfl
    have time : (Contribution.of record).eventTimeMs = record.eventTimeMs := rfl
    have still := w.advance_past w.clockMs (Int64.le_refl _)
    have joined : (w.add record).horizons = w.horizons.map fun h =>
        if w.clockMs - h.lengthMs < record.eventTimeMs
        then h.add (Contribution.of record) else h := by
      simp only [add, time, clock, still]
    rw [joined]
    refine ⟨_, List.mem_map_of_mem inside, ?_⟩
    split
    · intro empty
      have member : Contribution.of record ∈ (h.add (Contribution.of record)).contributions :=
        (mem_insertFromTail).mpr (Or.inl rfl)
      rw [List.isEmpty_iff.mp empty] at member
      cases member
    · exact nonempty

theorem new_add_views (lengths : List Int64) (positiveLengths : ∀ length ∈ lengths, 0 < length)
    (record : FlowRecord) (positive : 0 < record.eventTimeMs) (key : String) :
    ∀ v ∈ ((new lengths).add record).views key, v.flows = 1 := by
  intro v member
  have newer : (new lengths).clockMs < record.eventTimeMs :=
    Int64.lt_of_le_of_lt (Int64.minValue_le _) positive
  have clock : mathMax (new lengths).clockMs record.eventTimeMs = record.eventTimeMs :=
    if_pos (Int64.le_of_lt newer)
  have time : (Contribution.of record).eventTimeMs = record.eventTimeMs := rfl
  obtain ⟨h, inside, rfl⟩ := List.mem_map.mp member
  simp only [add, time, clock, advance_newer _ _ newer, List.mem_map] at inside
  obtain ⟨-, ⟨fresh, isFresh, rfl⟩, rfl⟩ := inside
  obtain ⟨length, isLength, rfl⟩ := List.mem_map.mp isFresh
  have covered : record.eventTimeMs - ((Horizon.new length).expire record.eventTimeMs).1.lengthMs <
      record.eventTimeMs := by
    have cutoff := toInt_cutoff record.eventTimeMs length positive (positiveLengths length isLength)
    have longer := positiveLengths length isLength
    rw [Horizon.expire_length, Int64.lt_iff_toInt_lt]
    refine (congrArg (· < _) cutoff).mpr ?_
    rw [Int64.lt_iff_toInt_lt] at longer
    have zero : (0 : Int64).toInt = 0 := rfl
    omega
  rw [if_pos covered, Horizon.new_expire]
  rfl

end DeviceWindows

/-- A run of the operator on one key: all view sets sent, and the windows that the last call came
to, if it found or made any. -/
structure Emissions where
  views : RollingViews
  reached : Option DeviceWindows
  sent : List ViewSet

/-- The deserializer lets only records with a positive event time through. -/
def ViewsEvent.Positive : ViewsEvent → Prop
  | .record flow _ => 0 < flow.eventTimeMs
  | .timer _ _ => True

instance (event : ViewsEvent) : Decidable event.Positive :=
  match event with
  | .record _ _ => inferInstanceAs (Decidable (_ < _))
  | .timer _ _ => inferInstanceAs (Decidable True)

def Changes (sent : List ViewSet) : Prop :=
  ∀ before set after, sent = before ++ set :: after →
    ∀ previous ∈ before.getLast?, aggregates set.views ≠ aggregates previous.views

theorem Changes.concat {sent : List ViewSet} (changes : Changes sent) (set : ViewSet)
    (differs : ∀ previous ∈ sent.getLast?, aggregates set.views ≠ aggregates previous.views) :
    Changes (sent ++ [set]) := by
  intro before other after split
  rcases List.eq_nil_or_concat after with none | ⟨rest, last, rfl⟩
  · subst none
    obtain ⟨same, isLast⟩ := List.append_inj' split rfl
    rw [← same, ← (List.cons.inj isLast).1]
    exact differs
  · rw [List.concat_eq_append, ← List.cons_append, ← List.append_assoc] at split
    exact changes before other rest (List.append_inj' split rfl).1

namespace Emissions

def start (horizonsMs : List Int64) (key : String) : Emissions :=
  ⟨.new horizonsMs key, none, []⟩

def step (run : Emissions) : ViewsEvent → Emissions
  | .record flow nowMs => ⟨(run.views.processElement flow nowMs).1, some (run.views.current.add flow),
      run.sent ++ (run.views.processElement flow nowMs).2⟩
  | .timer timestamp _ => ⟨(run.views.fire timestamp).1, (run.views.ticked timestamp).map Prod.fst,
      run.sent ++ (run.views.fire timestamp).2⟩

def Shows (sent : List ViewSet) (views : List View) : Prop :=
  ∃ last, sent.getLast? = some last ∧ aggregates last.views = aggregates views

/-- Between calls the windows that are held are not empty, and were shown; nothing is held only
after zeros were shown. -/
structure Current (horizonsMs : List Int64) (key : String) (run : Emissions) : Prop where
  lengths : run.views.horizonsMs = horizonsMs
  keyed : run.views.currentKey = key
  changes : Changes run.sent
  reached : ∀ w ∈ run.reached, Shows run.sent (w.views key)
  held : ∀ w ∈ run.views.windows, w.Tracked ∧ w.horizons.map Horizon.lengthMs = horizonsMs ∧
    w.isEmpty = false ∧ Shows run.sent (w.views key) ∧
    ∃ sent, run.views.lastViews = some sent ∧ aggregates sent = aggregates (w.views key)
  cleared : run.views.windows = none →
    run.views.lastViews = none ∧ ∀ last ∈ run.sent.getLast?, AllZero last.views

variable {horizonsMs : List Int64} {key : String} {run : Emissions}

theorem allZero_of_aggregates {views others : List View} (zero : AllZero others)
    (same : aggregates views = aggregates others) : AllZero views := by
  intro v member
  have counts : v.counts ∈ aggregates others := same ▸ List.mem_map_of_mem member
  obtain ⟨o, isOther, equal⟩ := List.mem_map.mp counts
  rw [← equal]
  exact zero o isOther

/-- The windows after a record were shown, by the set that was sent or by the last one. -/
theorem shows_record (current : Current horizonsMs key run) (flow : FlowRecord) (nowMs : Int64)
    (first : run.views.windows = none → ∀ v ∈ (run.views.current.add flow).views key, v.flows = 1)
    (some : run.views.windows = none → (run.views.current.add flow).views key ≠ []) :
    Shows (run.step (.record flow nowMs)).sent ((run.views.current.add flow).views key) ∧
      Changes (run.step (.record flow nowMs)).sent := by
  have sets := run.views.processElement_sent flow nowMs
  rw [current.keyed] at sets
  have sent : (run.step (.record flow nowMs)).sent =
      run.sent ++ (run.views.processElement flow nowMs).2 := rfl
  rw [sent, sets]
  cases held : run.views.windows with
  | none =>
      obtain ⟨fresh, zero⟩ := current.cleared held
      rw [fresh, RollingViews.viewsChanged, if_pos rfl]
      refine ⟨⟨_, List.getLast?_concat, rfl⟩, current.changes.concat _ ?_⟩
      intro previous isLast same
      obtain ⟨v, member⟩ := List.exists_mem_of_ne_nil _ (some held)
      have none := allZero_of_aggregates (zero previous isLast) same v member
      have one := first held v member
      rw [View.counts, one] at none
      cases none
  | some w =>
      obtain ⟨-, -, -, ⟨last, isLast, shown⟩, previous, lastViews, counts⟩ := current.held w held
      rw [lastViews]
      by_cases changed : RollingViews.viewsChanged (.some previous)
          ((run.views.current.add flow).views key) = true
      · rw [if_pos changed]
        refine ⟨⟨_, List.getLast?_concat, rfl⟩, current.changes.concat _ ?_⟩
        intro before isBefore same
        have equal : last = before := Option.some.inj (isLast.symm.trans isBefore)
        rw [← equal, shown, ← counts] at same
        exact (viewsChanged_iff _ _).mp changed same
      · rw [if_neg changed, List.append_nil]
        rw [viewsChanged_iff, not_not] at changed
        exact ⟨⟨last, isLast, (shown.trans counts.symm).trans changed.symm⟩, current.changes⟩

theorem step_record (current : Current horizonsMs key run) (someHorizon : horizonsMs ≠ [])
    (positiveLengths : ∀ length ∈ horizonsMs, 0 < length) (flow : FlowRecord) (nowMs : Int64)
    (positive : 0 < flow.eventTimeMs) :
    Current horizonsMs key (run.step (.record flow nowMs)) := by
  obtain ⟨windows, lastViews, sameHorizons, sameKey⟩ := run.views.processElement_fields flow nowMs
  have base : run.views.current.Tracked ∧
      run.views.current.horizons.map Horizon.lengthMs = horizonsMs ∧
      (run.views.current.clockMs < flow.eventTimeMs ∨ run.views.current.isEmpty = false) := by
    rw [RollingViews.current]
    cases held : run.views.windows with
    | none =>
        rw [Option.getD_none, current.lengths]
        refine ⟨?_, ?_, Or.inl (Int64.lt_of_le_of_lt (Int64.minValue_le _) positive)⟩
        · intro h member
          obtain ⟨length, -, rfl⟩ := List.mem_map.mp member
          exact Horizon.new_tracks length
        · simp only [DeviceWindows.new, List.map_map]
          exact (List.map_congr_left fun length _ => rfl).trans (List.map_id horizonsMs)
    | some w =>
        obtain ⟨tracked, lengths, full, -⟩ := current.held w held
        exact ⟨tracked, lengths, Or.inr full⟩
  obtain ⟨tracked, lengths, holds⟩ := base
  have someWindow : run.views.current.horizons ≠ [] := by
    intro none
    rw [none] at lengths
    exact someHorizon lengths.symm
  have positiveHorizons : ∀ h ∈ run.views.current.horizons, 0 < h.lengthMs := by
    intro h member
    exact positiveLengths _ (lengths ▸ List.mem_map_of_mem member)
  have full := run.views.current.add_nonempty flow someWindow positive positiveHorizons holds
  have addLengths := (run.views.current.add_lengths flow).trans lengths
  have first : run.views.windows = none →
      ∀ v ∈ (run.views.current.add flow).views key, v.flows = 1 := by
    intro none
    rw [RollingViews.current, none, Option.getD_none, current.lengths]
    exact DeviceWindows.new_add_views horizonsMs positiveLengths flow positive key
  have someView : run.views.windows = none → (run.views.current.add flow).views key ≠ [] := by
    intro _ none
    rw [List.map_eq_nil_iff.mp none] at addLengths
    exact someHorizon addLengths.symm
  obtain ⟨shows, changes⟩ := shows_record current flow nowMs first someView
  constructor
  · exact sameHorizons.trans current.lengths
  · exact sameKey.trans current.keyed
  · exact changes
  · intro w isReached
    rw [← Option.some.inj isReached]
    exact shows
  · intro w held
    rw [← Option.some.inj (windows.symm.trans held)]
    refine ⟨run.views.current.add_tracked flow tracked, addLengths, full, shows, _, lastViews, ?_⟩
    rw [current.keyed]
  · intro none
    cases windows.symm.trans none

theorem shows_timer (current : Current horizonsMs key run) (timestamp nowMs : Int64)
    (w : DeviceWindows) (held : run.views.windows = some w) :
    Shows (run.step (.timer timestamp nowMs)).sent
        ((w.advanceTo (run.views.silentClock w timestamp)).1.views key) ∧
      Changes (run.step (.timer timestamp nowMs)).sent := by
  have sets := run.views.fire_sent timestamp w held
  rw [current.keyed] at sets
  have sent : (run.step (.timer timestamp nowMs)).sent =
      run.sent ++ (run.views.fire timestamp).2 := rfl
  rw [sent, sets]
  generalize run.views.silentClock w timestamp = silentMs
  obtain ⟨-, -, -, ⟨last, isLast, shown⟩, previous, lastViews, counts⟩ := current.held w held
  rw [lastViews]
  by_cases expired : (w.advanceTo silentMs).2 = true
  · by_cases changed : RollingViews.viewsChanged (.some previous)
        ((w.advanceTo silentMs).1.views key) = true
    · rw [if_pos ⟨expired, changed⟩]
      refine ⟨⟨_, List.getLast?_concat, rfl⟩, current.changes.concat _ ?_⟩
      intro before isBefore same
      have equal : last = before := Option.some.inj (isLast.symm.trans isBefore)
      rw [← equal, shown, ← counts] at same
      exact (viewsChanged_iff _ _).mp changed same
    · rw [if_neg fun both => changed both.2, List.append_nil]
      rw [viewsChanged_iff, not_not] at changed
      exact ⟨⟨last, isLast, (shown.trans counts.symm).trans changed.symm⟩, current.changes⟩
  · rw [if_neg fun both => expired both.1, List.append_nil]
    have same := w.advance_aggregates silentMs key (Bool.eq_false_iff.mpr expired)
    exact ⟨⟨last, isLast, shown.trans same.symm⟩, current.changes⟩

theorem step_timer (current : Current horizonsMs key run) (timestamp nowMs : Int64) :
    Current horizonsMs key (run.step (.timer timestamp nowMs)) := by
  cases held : run.views.windows with
  | none =>
      have silent : run.step (.timer timestamp nowMs) =
          ⟨{ run.views with timers := run.views.timers.erase timestamp, pendingTimer := none },
            none, run.sent⟩ := by
        simp only [step, RollingViews.fire, RollingViews.onTimer, RollingViews.ticked, held,
          Option.map_none, List.append_nil]
      rw [silent]
      refine ⟨current.lengths, current.keyed, current.changes, ?_, ?_, ?_⟩
      · intro w none
        cases none
      · intro w isHeld
        cases held.symm.trans isHeld
      · exact current.cleared
  | some w =>
      obtain ⟨tracked, lengths, full, -, previous, lastViews, counts⟩ := current.held w held
      obtain ⟨shows, changes⟩ := shows_timer current timestamp nowMs w held
      obtain ⟨nextViews, sameHorizons, sameKey⟩ := run.views.fire_fields timestamp w held
      have windows := (run.views.fire_windows timestamp w held).1
      have ticked : run.views.ticked timestamp =
          some (w.advanceTo (run.views.silentClock w timestamp)) := by
        rw [RollingViews.ticked, held, Option.map_some]
      rw [current.keyed] at nextViews
      have trackedToo := w.advance_tracked (run.views.silentClock w timestamp) tracked
      have lengthsToo := w.advance_lengths (run.views.silentClock w timestamp)
      constructor
      · exact sameHorizons.trans current.lengths
      · exact sameKey.trans current.keyed
      · exact changes
      · intro moved isReached
        have reached : (run.step (.timer timestamp nowMs)).reached =
            (run.views.ticked timestamp).map Prod.fst := rfl
        rw [reached, ticked, Option.map_some, Option.mem_some_iff] at isReached
        rw [← isReached]
        exact shows
      · intro moved isHeld
        have isHeld := windows.symm.trans isHeld
        split at isHeld
        · cases isHeld
        · next nonempty =>
            rw [Option.some.injEq] at isHeld
            rw [if_neg nonempty] at nextViews
            rw [← isHeld]
            refine ⟨trackedToo, lengthsToo.trans lengths, Bool.eq_false_iff.mpr nonempty, shows, ?_⟩
            by_cases expired : (w.advanceTo (run.views.silentClock w timestamp)).2 = true
            · rw [if_pos expired] at nextViews
              exact ⟨_, nextViews, rfl⟩
            · rw [if_neg expired, lastViews] at nextViews
              refine ⟨previous, nextViews, ?_⟩
              rw [w.advance_aggregates _ key (Bool.eq_false_iff.mpr expired)]
              exact counts
      · intro none
        have none := windows.symm.trans none
        split at none
        · next empty =>
            rw [if_pos empty] at nextViews
            refine ⟨nextViews, ?_⟩
            intro last isLast
            obtain ⟨shown, isShown, same⟩ := shows
            have equal : shown = last := Option.some.inj (isShown.symm.trans isLast)
            rw [← equal]
            exact allZero_of_aggregates
              (DeviceWindows.emptied_zero _ trackedToo empty key) same
        · cases none

end Emissions

/-- Whatever records and timers come: the last view set sent has the aggregates of the windows
just reached, it is all zero when nothing is held, and none repeats the aggregates before it. -/
theorem sent_views_are_current (horizonsMs : List Int64) (someHorizon : horizonsMs ≠ [])
    (positiveLengths : ∀ length ∈ horizonsMs, 0 < length) (key : String)
    (events : List ViewsEvent) (positive : ∀ event ∈ events, event.Positive) :
    (∀ w ∈ (Runs.run Emissions.step (.start horizonsMs key) events).reached,
      ∃ last, (Runs.run Emissions.step (.start horizonsMs key) events).sent.getLast? = some last ∧
        aggregates last.views = aggregates (w.views key)) ∧
    (∀ w ∈ (Runs.run Emissions.step (.start horizonsMs key) events).views.windows,
      ∃ last, (Runs.run Emissions.step (.start horizonsMs key) events).sent.getLast? = some last ∧
        aggregates last.views = aggregates (w.views key)) ∧
    ((Runs.run Emissions.step (.start horizonsMs key) events).views.windows = none →
      ∀ last ∈ (Runs.run Emissions.step (.start horizonsMs key) events).sent.getLast?,
        AllZero last.views) ∧
    Changes (Runs.run Emissions.step (.start horizonsMs key) events).sent := by
  have begun : Emissions.Current horizonsMs key (.start horizonsMs key) := by
    refine ⟨rfl, rfl, ?_, ?_, ?_, ?_⟩
    · intro before set after split
      exact absurd split (by simp [Emissions.start])
    · intro w none
      cases none
    · intro w none
      cases none
    · intro _
      refine ⟨rfl, ?_⟩
      intro last none
      cases none
  have current : Emissions.Current horizonsMs key
      (Runs.run Emissions.step (.start horizonsMs key) events) := by
    generalize Emissions.start horizonsMs key = run at begun
    induction events generalizing run with
    | nil => exact begun
    | cons event events ih =>
        obtain ⟨now, later⟩ := List.forall_mem_cons.mp positive
        apply ih later
        cases event with
        | record flow nowMs =>
            exact Emissions.step_record begun someHorizon positiveLengths flow nowMs now
        | timer timestamp nowMs => exact Emissions.step_timer begun timestamp nowMs
  refine ⟨current.reached, ?_, ?_, current.changes⟩
  · intro w held
    exact (current.held w held).2.2.2.1
  · intro none
    exact (current.cleared none).2

def probeAndSilence : List ViewsEvent :=
  [.record (DeviceWindows.probe 1000 22) 1000, .timer 2000 2000,
    .record (DeviceWindows.probe 2000 23) 2500, .timer 70000 70000]

theorem sent_views_are_current_probe :
    ((Runs.run Emissions.step (.start [60000] "gw") probeAndSilence).views.windows.isNone ∧
      (Runs.run Emissions.step (.start [60000] "gw") probeAndSilence).sent.map
        (fun set => set.views.map View.flows) = [[1], [2], [0]]) ∧
    (∀ w ∈ (Runs.run Emissions.step (.start [60000] "gw") probeAndSilence).reached,
      ∃ last, (Runs.run Emissions.step (.start [60000] "gw") probeAndSilence).sent.getLast? =
        some last ∧ aggregates last.views = aggregates (w.views "gw")) ∧
    (∀ w ∈ (Runs.run Emissions.step (.start [60000] "gw") probeAndSilence).views.windows,
      ∃ last, (Runs.run Emissions.step (.start [60000] "gw") probeAndSilence).sent.getLast? =
        some last ∧ aggregates last.views = aggregates (w.views "gw")) ∧
    ((Runs.run Emissions.step (.start [60000] "gw") probeAndSilence).views.windows = none →
      ∀ last ∈ (Runs.run Emissions.step (.start [60000] "gw") probeAndSilence).sent.getLast?,
        AllZero last.views) ∧
    Changes (Runs.run Emissions.step (.start [60000] "gw") probeAndSilence).sent :=
  ⟨by decide, sent_views_are_current [60000] (List.cons_ne_nil _ _)
    (List.forall_mem_singleton.mpr (by decide)) "gw" probeAndSilence (by decide)⟩

/-- Two records near the least time there is, with the timer of the first between them. -/
def farPast : List ViewsEvent :=
  [.record (DeviceWindows.probe (Int64.minValue + 10) 22) 0, .timer 1000 1000,
    .record (DeviceWindows.probe (Int64.minValue + 20) 23) 2000]

/-- The start of a window wraps around, no window takes the records, and the views of none are sent
for each of them. -/
theorem zero_views_sent_twice :
    (Runs.run Emissions.step (.start [60000, 900000] "gw") (farPast.take 1)).views.timers = [1000] ∧
      ¬ ∀ events, Changes (Runs.run Emissions.step (.start [60000, 900000] "gw") events).sent := by
  refine ⟨by decide, ?_⟩
  intro claimed
  have changes := claimed farPast
  have shown : (Runs.run Emissions.step (.start [60000, 900000] "gw") farPast).sent.map
      (fun set => aggregates set.views) =
        [[(0, 0, 0, 0, 0), (0, 0, 0, 0, 0)], [(0, 0, 0, 0, 0), (0, 0, 0, 0, 0)]] := by decide
  generalize (Runs.run Emissions.step (.start [60000, 900000] "gw") farPast).sent = sent
    at changes shown
  rcases List.map_eq_cons_iff.mp shown with ⟨first, rest, rfl, zero, others⟩
  rcases List.map_eq_cons_iff.mp others with ⟨second, _, rfl, again, _⟩
  exact changes [first] second _ rfl first rfl (again.trans zero.symm)

end PiAgents.Detection
