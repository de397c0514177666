import PiAgents.Lib.Runs
import PiAgents.Detection.DeviceClock

/-! `FeatureThrottle` on one key: the first view set goes out at once, later ones within the
interval are held and the latest is sent when it ends. -/

namespace PiAgents.Detection

/-- The keyed state of the operator and the timers registered for the key. -/
structure FeatureThrottle where
  intervalMs : Int64
  lastEmitMs : Option Int64
  pending : Option ViewSet
  timers : List Int64
  deriving DecidableEq, Repr

namespace FeatureThrottle

def new (intervalMs : Int64) : FeatureThrottle := ⟨intervalMs, none, none, []⟩

/-- The set whose views go out for an input, if any. -/
def processElement (s : FeatureThrottle) (set : ViewSet) (nowMs : Int64) :
    FeatureThrottle × Option ViewSet :=
  match s.lastEmitMs with
  | none => ({ s with lastEmitMs := some nowMs }, some set)
  | some last =>
    if s.intervalMs ≤ nowMs - last then ({ s with lastEmitMs := some nowMs }, some set)
    else
      let timers := if s.pending.isNone then s.timers.insert (last + s.intervalMs) else s.timers
      ({ s with timers, pending := some set }, none)

def onTimer (s : FeatureThrottle) (timestamp : Int64) : FeatureThrottle × Option ViewSet :=
  match s.pending with
  | some set => ({ s with lastEmitMs := some timestamp, pending := none }, some set)
  | none => ({ s with lastEmitMs := none }, none)

/-- The timer service removes a timer before it calls `onTimer`. -/
def fire (s : FeatureThrottle) (timestamp : Int64) : FeatureThrottle × Option ViewSet :=
  { s with timers := s.timers.erase timestamp }.onTimer timestamp

def due (s : FeatureThrottle) (nowMs : Int64) : Bool :=
  s.lastEmitMs.all fun last => s.intervalMs ≤ nowMs - last

section

variable (s : FeatureThrottle) (set : ViewSet) (nowMs : Int64)

theorem processElement_due (due : s.due nowMs) :
    s.processElement set nowMs = ({ s with lastEmitMs := some nowMs }, some set) := by
  rw [FeatureThrottle.due] at due
  rw [processElement]
  cases held : s.lastEmitMs with
  | none => rfl
  | some last =>
      rw [held, Option.all_some, decide_eq_true_eq] at due
      simp only [due, if_true]

theorem processElement_early (last : Int64) (held : s.lastEmitMs = some last)
    (early : s.due nowMs = false) : s.processElement set nowMs = ({ s with
      timers := if s.pending.isNone then s.timers.insert (last + s.intervalMs) else s.timers
      pending := some set }, none) := by
  rw [FeatureThrottle.due, held, Option.all_some, decide_eq_false_iff_not] at early
  simp only [processElement, held, early, if_false]

end

end FeatureThrottle

inductive ThrottleEvent where
  | record (set : ViewSet) (nowMs : Int64)
  | timer (timestamp nowMs : Int64)

def ThrottleEvent.nowMs : ThrottleEvent → Int64
  | .record _ nowMs => nowMs
  | .timer _ nowMs => nowMs

/-- A run on one key: the input so far, the sets that went out with the processing time, and that
time again if the last one was sent by a callback later than its timestamp. -/
structure ThrottleRun where
  throttle : FeatureThrottle
  wallMs : Int64
  inputs : List ViewSet
  emitted : List (ViewSet × Int64)
  lateMs : Option Int64

namespace ThrottleRun

def start (intervalMs : Int64) : ThrottleRun := ⟨.new intervalMs, 0, [], [], none⟩

def step (run : ThrottleRun) : ThrottleEvent → ThrottleRun
  | .record set nowMs =>
    let after := run.throttle.processElement set nowMs
    { throttle := after.1
      wallMs := nowMs
      inputs := run.inputs ++ [set]
      emitted := run.emitted ++ (after.2.map fun set => (set, nowMs)).toList
      lateMs := if after.2.isSome then none else run.lateMs }
  | .timer timestamp nowMs =>
    let after := run.throttle.fire timestamp
    { throttle := after.1
      wallMs := nowMs
      inputs := run.inputs
      emitted := run.emitted ++ (after.2.map fun set => (set, nowMs)).toList
      lateMs := if after.2.isSome then if timestamp < nowMs then some nowMs else none
        else run.lateMs }

/-- Processing time does not decrease, a timer fires when it is registered and due, and clock
readings leave room for the next timer. -/
def Allowed (run : ThrottleRun) (event : ThrottleEvent) : Prop :=
  run.wallMs ≤ event.nowMs ∧
    event.nowMs.toInt + run.throttle.intervalMs.toInt ≤ Int64.maxValue.toInt ∧
    match event with
    | .record _ _ => True
    | .timer timestamp nowMs => timestamp ∈ run.throttle.timers ∧ timestamp ≤ nowMs

instance (run : ThrottleRun) (event : ThrottleEvent) : Decidable (run.Allowed event) :=
  match event with
  | .record _ _ => inferInstanceAs (Decidable (_ ∧ _ ∧ True))
  | .timer _ _ => inferInstanceAs (Decidable (_ ∧ _ ∧ _ ∧ _))

/-- An interval has passed since a callback that sent a set later than its timestamp. -/
def Rested (run : ThrottleRun) (nowMs : Int64) : Prop :=
  ∀ late ∈ run.lateMs, late.toInt + run.throttle.intervalMs.toInt ≤ nowMs.toInt

instance (run : ThrottleRun) (nowMs : Int64) : Decidable (run.Rested nowMs) :=
  @Option.decidableForallMem _ _ (fun _ => Int.decLe _ _) _

/-- No record comes between the time that the timer of a held set is due and its callback; and
nothing goes out within an interval after a late callback. -/
def Punctual (run : ThrottleRun) : ThrottleEvent → Prop
  | .record _ nowMs => run.throttle.due nowMs → run.throttle.pending = none ∧ run.Rested nowMs
  | .timer _ nowMs => run.throttle.pending.isSome → run.Rested nowMs

instance (run : ThrottleRun) (event : ThrottleEvent) : Decidable (run.Punctual event) :=
  match event with
  | .record _ _ => inferInstanceAs (Decidable (_ → _))
  | .timer _ _ => inferInstanceAs (Decidable (_ → _))

def sets (run : ThrottleRun) : List ViewSet := run.emitted.map Prod.fst

def Spaced (intervalMs : Int64) (emitted : List (ViewSet × Int64)) : Prop :=
  emitted.Pairwise fun earlier later =>
    earlier.2.toInt + intervalMs.toInt ≤ later.2.toInt

instance (intervalMs : Int64) (emitted : List (ViewSet × Int64)) :
    Decidable (Spaced intervalMs emitted) := inferInstanceAs (Decidable (List.Pairwise _ _))

/-- The last set sent, when it went out, and what the operator takes for that time. -/
structure Sent (run : ThrottleRun) (last : Int64) (atMs : Int64) : Prop where
  emitted : run.emitted.getLast?.map Prod.snd = some atMs
  nonneg : 0 ≤ last.toInt
  recorded : last.toInt ≤ atMs.toInt
  past : atMs.toInt ≤ run.wallMs.toInt
  late : ∀ late ∈ run.lateMs, late = atMs
  prompt : run.lateMs = none → atMs = last

/-- Nothing is held and the last input has gone out; or the last input is held, newer than all
that went out, and the one registered timer will send it. -/
def Holds (run : ThrottleRun) (last : Option Int64) : Prop :=
  match run.throttle.pending with
  | none => run.throttle.timers = [] ∧ run.sets.Sublist run.inputs ∧
      run.sets.getLast? = run.inputs.getLast?
  | some set => ∃ lastMs ∈ last,
      run.throttle.timers = [lastMs + run.throttle.intervalMs] ∧
      0 ≤ lastMs.toInt + run.throttle.intervalMs.toInt ∧
      ∃ earlier, run.inputs = earlier ++ [set] ∧ run.sets.Sublist earlier

structure Orderly (run : ThrottleRun) : Prop where
  wall : 0 ≤ run.wallMs.toInt
  room : run.wallMs.toInt + run.throttle.intervalMs.toInt ≤ Int64.maxValue.toInt
  sent : match run.throttle.lastEmitMs with
    | none => run.emitted = []
    | some last => ∃ atMs, run.Sent last atMs
  holds : run.Holds run.throttle.lastEmitMs
  spaced : Spaced run.throttle.intervalMs run.emitted

theorem elapsed_exact (a b : Int64) (nonneg : 0 ≤ b.toInt) (order : b.toInt ≤ a.toInt) :
    (a - b).toInt = a.toInt - b.toInt := by
  have high := a.toInt_lt
  exact Exact.sub a b (by omega) (by omega)

theorem Spaced.concat {intervalMs : Int64} {emitted : List (ViewSet × Int64)}
    (spaced : Spaced intervalMs emitted) (set : ViewSet) (nowMs : Int64)
    (last : ∀ atMs, emitted.getLast?.map Prod.snd = some atMs →
      atMs.toInt ≤ nowMs.toInt ∧ atMs.toInt + intervalMs.toInt ≤ nowMs.toInt) :
    Spaced intervalMs (emitted ++ [(set, nowMs)]) := by
  rw [Spaced, List.pairwise_append]
  refine ⟨spaced, List.pairwise_singleton _ _, ?_⟩
  intro entry member other single
  rw [List.mem_singleton.mp single]
  rcases List.eq_nil_or_concat emitted with none | ⟨before, latest, rfl⟩
  · rw [none] at member
    cases member
  · rw [List.concat_eq_append] at *
    obtain ⟨order, apart⟩ := last latest.2 (by rw [List.getLast?_concat]; rfl)
    rcases List.mem_append.mp member with old | new
    · have earlier := (List.pairwise_append.mp spaced).2.2 entry old latest
        (List.mem_singleton_self _)
      exact le_trans earlier order
    · rw [List.mem_singleton.mp new]
      exact apart

namespace Orderly

variable {run : ThrottleRun}

/-- When something may go out, an interval has passed since the last emission. -/
theorem apart (last atMs nowMs : Int64) (sent : run.Sent last atMs) (rested : run.Rested nowMs)
    (counted : last.toInt + run.throttle.intervalMs.toInt ≤ nowMs.toInt) :
    atMs.toInt + run.throttle.intervalMs.toInt ≤ nowMs.toInt := by
  cases late : run.lateMs with
  | none =>
      rw [sent.prompt late]
      exact counted
  | some wall =>
      rw [← sent.late wall late]
      exact rested wall late

theorem record_due (orderly : run.Orderly) (set : ViewSet) (nowMs : Int64)
    (forward : run.wallMs.toInt ≤ nowMs.toInt)
    (room : nowMs.toInt + run.throttle.intervalMs.toInt ≤ Int64.maxValue.toInt)
    (due : run.throttle.due nowMs = true) (free : run.throttle.pending = none)
    (rested : run.Rested nowMs) : (run.step (.record set nowMs)).Orderly := by
  have wall := orderly.wall
  have sent := orderly.sent
  have holds := orderly.holds
  rw [Holds, free] at holds
  obtain ⟨timers, sublist, -⟩ := holds
  have after : run.step (.record set nowMs) =
      ⟨{ run.throttle with lastEmitMs := some nowMs }, nowMs, run.inputs ++ [set],
        run.emitted ++ [(set, nowMs)], none⟩ := by
    simp only [step, run.throttle.processElement_due set nowMs due]
    rfl
  have sets : (run.emitted ++ [(set, nowMs)]).map Prod.fst = run.sets ++ [set] := by
    rw [List.map_append]
    rfl
  rw [after]
  constructor
  · exact le_trans wall forward
  · exact room
  · refine ⟨nowMs, ?_, ?_, ?_, ?_, ?_, ?_⟩
    · rw [List.getLast?_concat]
      rfl
    · exact le_trans wall forward
    · exact le_refl _
    · exact le_refl _
    · intro late none
      cases none
    · exact fun _ => rfl
  · rw [Holds, free]
    refine ⟨timers, ?_, ?_⟩
    · rw [ThrottleRun.sets, sets]
      exact sublist.append (List.Sublist.refl _)
    · rw [ThrottleRun.sets, sets, List.getLast?_concat, List.getLast?_concat]
  · apply orderly.spaced.concat
    intro atMs isLast
    cases held : run.throttle.lastEmitMs with
    | none =>
        rw [held] at sent
        rw [sent] at isLast
        cases isLast
    | some last =>
        rw [held] at sent
        obtain ⟨other, sent⟩ := sent
        have same : other = atMs := Option.some.inj (sent.emitted.symm.trans isLast)
        subst same
        have past := sent.past
        have recorded := sent.recorded
        refine ⟨by omega, apart last other nowMs sent rested ?_⟩
        rw [FeatureThrottle.due, held, Option.all_some, decide_eq_true_eq,
          Int64.le_iff_toInt_le, elapsed_exact _ _ sent.nonneg (by omega)] at due
        omega

theorem record_early (orderly : run.Orderly) (set : ViewSet) (nowMs : Int64)
    (forward : run.wallMs.toInt ≤ nowMs.toInt)
    (room : nowMs.toInt + run.throttle.intervalMs.toInt ≤ Int64.maxValue.toInt)
    (early : run.throttle.due nowMs = false) : (run.step (.record set nowMs)).Orderly := by
  have wall := orderly.wall
  have sent := orderly.sent
  have holds := orderly.holds
  cases held : run.throttle.lastEmitMs with
  | none =>
      rw [FeatureThrottle.due, held] at early
      cases early
  | some last =>
      rw [held] at sent holds
      obtain ⟨atMs, sent⟩ := sent
      have past := sent.past
      have recorded := sent.recorded
      have soon : nowMs.toInt < last.toInt + run.throttle.intervalMs.toInt := by
        rw [FeatureThrottle.due, held, Option.all_some, decide_eq_false_iff_not,
          Int64.le_iff_toInt_le, elapsed_exact _ _ sent.nonneg (by omega)] at early
        omega
      have after : run.step (.record set nowMs) =
          ⟨{ run.throttle with
              timers := if run.throttle.pending.isNone
                then run.throttle.timers.insert (last + run.throttle.intervalMs)
                else run.throttle.timers
              pending := some set }, nowMs, run.inputs ++ [set], run.emitted, run.lateMs⟩ := by
        simp only [step, run.throttle.processElement_early set nowMs last held early]
        simp
      rw [after]
      constructor
      · exact le_trans wall forward
      · exact room
      · simp only [held]
        exact ⟨atMs, sent.emitted, sent.nonneg, recorded, le_trans past forward, sent.late,
          sent.prompt⟩
      · simp only [Holds]
        refine ⟨last, held, ?_, by omega, run.inputs, rfl, ?_⟩
        · cases waiting : run.throttle.pending with
          | none =>
              rw [Holds, waiting] at holds
              rw [holds.1]
              rfl
          | some old =>
              rw [Holds, waiting] at holds
              obtain ⟨lastMs, isLast, timers, -⟩ := holds
              rw [Option.mem_some_iff] at isLast
              rw [isLast]
              exact timers
        · cases waiting : run.throttle.pending with
          | none =>
              rw [Holds, waiting] at holds
              exact holds.2.1
          | some old =>
              rw [Holds, waiting] at holds
              obtain ⟨-, -, -, -, earlier, inputs, sublist⟩ := holds
              rw [inputs]
              exact sublist.trans (List.sublist_append_left _ _)
      · exact orderly.spaced

theorem timer (orderly : run.Orderly) (timestamp nowMs : Int64)
    (forward : run.wallMs.toInt ≤ nowMs.toInt)
    (room : nowMs.toInt + run.throttle.intervalMs.toInt ≤ Int64.maxValue.toInt)
    (registered : timestamp ∈ run.throttle.timers) (due : timestamp.toInt ≤ nowMs.toInt)
    (rested : run.throttle.pending.isSome → run.Rested nowMs) :
    (run.step (.timer timestamp nowMs)).Orderly := by
  have wall := orderly.wall
  have sent := orderly.sent
  have holds := orderly.holds
  cases waiting : run.throttle.pending with
  | none =>
      rw [Holds, waiting] at holds
      rw [holds.1] at registered
      cases registered
  | some set =>
      rw [Holds, waiting] at holds
      obtain ⟨last, isLast, timers, nonneg, earlier, inputs, sublist⟩ := holds
      rw [Option.mem_def] at isLast
      rw [isLast] at sent
      obtain ⟨atMs, sent⟩ := sent
      have past := sent.past
      have recorded := sent.recorded
      have held := orderly.room
      have counted : timestamp.toInt = last.toInt + run.throttle.intervalMs.toInt := by
        rw [timers] at registered
        rw [List.mem_singleton.mp registered]
        have most : Int64.maxValue.toInt = 9223372036854775807 := rfl
        exact Exact.add _ _ (by omega) (by omega)
      have after : run.step (.timer timestamp nowMs) =
          ⟨{ run.throttle with
              timers := run.throttle.timers.erase timestamp
              lastEmitMs := some timestamp
              pending := none }, nowMs, run.inputs, run.emitted ++ [(set, nowMs)],
            if timestamp < nowMs then some nowMs else none⟩ := by
        simp only [step, FeatureThrottle.fire, FeatureThrottle.onTimer, waiting]
        rfl
      have sets : (run.emitted ++ [(set, nowMs)]).map Prod.fst = run.sets ++ [set] := by
        rw [List.map_append]
        rfl
      rw [after]
      constructor
      · exact le_trans wall forward
      · exact room
      · refine ⟨nowMs, ?_, ?_, due, le_refl _, ?_, ?_⟩
        · rw [List.getLast?_concat]
          rfl
        · rw [counted]
          exact nonneg
        · intro late isLate
          simp only at isLate
          split at isLate
          · exact (Option.some.inj isLate).symm
          · cases isLate
        · intro notLate
          simp only at notLate
          split at notLate
          · cases notLate
          · next prompt =>
              rw [Int64.lt_iff_toInt_lt] at prompt
              apply Int64.toInt_inj.mp
              omega
      · simp only [Holds]
        refine ⟨?_, ?_, ?_⟩
        · rw [timers] at registered ⊢
          rw [List.mem_singleton.mp registered, List.erase_cons_head]
        · rw [ThrottleRun.sets, sets, inputs]
          exact sublist.append (List.Sublist.refl _)
        · rw [ThrottleRun.sets, sets, inputs, List.getLast?_concat, List.getLast?_concat]
      · apply orderly.spaced.concat
        intro other isOther
        have same : atMs = other := Option.some.inj (sent.emitted.symm.trans isOther)
        subst same
        exact ⟨by omega, apart last atMs nowMs sent (rested (by rw [waiting]; rfl)) (by omega)⟩

theorem step (orderly : run.Orderly) (event : ThrottleEvent) (allowed : run.Allowed event)
    (punctual : run.Punctual event) : (run.step event).Orderly := by
  obtain ⟨forward, room, enabled⟩ := allowed
  rw [Int64.le_iff_toInt_le] at forward
  cases event with
  | record set nowMs =>
      cases due : run.throttle.due nowMs with
      | true =>
          obtain ⟨free, rested⟩ := punctual due
          exact orderly.record_due set nowMs forward room due free rested
      | false => exact orderly.record_early set nowMs forward room due
  | timer timestamp nowMs =>
      obtain ⟨registered, due⟩ := enabled
      rw [Int64.le_iff_toInt_le] at due
      exact orderly.timer timestamp nowMs forward room registered due punctual

theorem start (intervalMs : Int64) : (ThrottleRun.start intervalMs).Orderly where
  wall := le_refl _
  room := by
    have high := intervalMs.toInt_le
    have zero : (ThrottleRun.start intervalMs).wallMs.toInt = 0 := rfl
    rw [zero, Int.zero_add]
    exact high
  sent := rfl
  holds := ⟨rfl, List.Sublist.refl _, rfl⟩
  spaced := List.Pairwise.nil

end Orderly

theorem step_interval (run : ThrottleRun) (event : ThrottleEvent) :
    (run.step event).throttle.intervalMs = run.throttle.intervalMs := by
  cases event with
  | record set nowMs =>
      simp only [step, FeatureThrottle.processElement]
      cases run.throttle.lastEmitMs with
      | none => rfl
      | some last =>
          by_cases due : run.throttle.intervalMs ≤ nowMs - last
          · simp only [due, if_true]
          · simp only [due, if_false]
  | timer timestamp nowMs =>
      simp only [step, FeatureThrottle.fire, FeatureThrottle.onTimer]
      cases run.throttle.pending with
      | none => rfl
      | some set => rfl

end ThrottleRun

/-- In a run whose callbacks are punctual the sets go out in input order, each at most once and an
interval apart, and the last input has gone out once no timer is registered. -/
theorem throttle_sends_latest (intervalMs : Int64) (events : List ThrottleEvent)
    (allowed : Runs.Meets ThrottleRun.step ThrottleRun.Allowed (.start intervalMs) events)
    (punctual : Runs.Meets ThrottleRun.step ThrottleRun.Punctual (.start intervalMs) events) :
    (Runs.run ThrottleRun.step (.start intervalMs) events).sets.Sublist
        (Runs.run ThrottleRun.step (.start intervalMs) events).inputs ∧
      ThrottleRun.Spaced intervalMs
        (Runs.run ThrottleRun.step (.start intervalMs) events).emitted ∧
      ((Runs.run ThrottleRun.step (.start intervalMs) events).throttle.timers = [] →
        (Runs.run ThrottleRun.step (.start intervalMs) events).sets.getLast? =
          (Runs.run ThrottleRun.step (.start intervalMs) events).inputs.getLast?) := by
  have preserves : ∀ (run : ThrottleRun) event,
      (run.Orderly ∧ run.throttle.intervalMs = intervalMs) →
        run.Allowed event ∧ run.Punctual event →
        ((run.step event).Orderly ∧ (run.step event).throttle.intervalMs = intervalMs) := by
    rintro run event ⟨orderly, same⟩ ⟨enabled, prompt⟩
    exact ⟨orderly.step event enabled prompt, (run.step_interval event).trans same⟩
  obtain ⟨orderly, same⟩ := Runs.run_invariant preserves
    ⟨ThrottleRun.Orderly.start intervalMs, rfl⟩ (Runs.meets_and.mpr ⟨allowed, punctual⟩)
  generalize Runs.run ThrottleRun.step _ events = run at *
  have holds := orderly.holds
  have spaced := orderly.spaced
  rw [same] at spaced
  rw [ThrottleRun.Holds] at holds
  cases waiting : run.throttle.pending with
  | none =>
      rw [waiting] at holds
      exact ⟨holds.2.1, spaced, fun _ => holds.2.2⟩
  | some set =>
      rw [waiting] at holds
      obtain ⟨last, -, timers, -, earlier, inputs, sublist⟩ := holds
      refine ⟨?_, spaced, ?_⟩
      · rw [inputs]
        exact sublist.trans (List.sublist_append_left _ _)
      · intro none
        rw [none] at timers
        cases timers

def throttledSet (windowEndMs : Int64) : ViewSet := ⟨"gw", windowEndMs, []⟩

def promptThrottle : List ThrottleEvent :=
  [.record (throttledSet 1) 0, .record (throttledSet 2) 500, .record (throttledSet 3) 900,
    .timer 1000 1000, .record (throttledSet 4) 2000]

theorem throttle_sends_latest_prompt :
    ((Runs.run ThrottleRun.step (.start 1000) promptThrottle).emitted =
        [(throttledSet 1, 0), (throttledSet 3, 1000), (throttledSet 4, 2000)] ∧
      (Runs.run ThrottleRun.step (.start 1000) promptThrottle).throttle.timers = []) ∧
    (Runs.run ThrottleRun.step (.start 1000) promptThrottle).sets.Sublist
        (Runs.run ThrottleRun.step (.start 1000) promptThrottle).inputs ∧
      ThrottleRun.Spaced 1000 (Runs.run ThrottleRun.step (.start 1000) promptThrottle).emitted ∧
      ((Runs.run ThrottleRun.step (.start 1000) promptThrottle).throttle.timers = [] →
        (Runs.run ThrottleRun.step (.start 1000) promptThrottle).sets.getLast? =
          (Runs.run ThrottleRun.step (.start 1000) promptThrottle).inputs.getLast?) :=
  ⟨by decide, throttle_sends_latest 1000 promptThrottle (by decide) (by decide)⟩

/-- The third set comes when the timer of the second is due, and before its callback. -/
def lateCallback : List ThrottleEvent :=
  [.record (throttledSet 1) 0, .record (throttledSet 2) 500, .record (throttledSet 3) 1500,
    .timer 1000 1500]

/-- The held set goes out after a newer one, in the same interval, and stays the last. -/
theorem late_callback_reorders :
    Runs.Meets ThrottleRun.step ThrottleRun.Allowed (.start 1000) lateCallback ∧
    ¬ ((Runs.run ThrottleRun.step (.start 1000) lateCallback).sets.Sublist
        (Runs.run ThrottleRun.step (.start 1000) lateCallback).inputs) ∧
    ¬ ThrottleRun.Spaced 1000 (Runs.run ThrottleRun.step (.start 1000) lateCallback).emitted ∧
    ¬ ((Runs.run ThrottleRun.step (.start 1000) lateCallback).throttle.timers = [] →
      (Runs.run ThrottleRun.step (.start 1000) lateCallback).sets.getLast? =
        (Runs.run ThrottleRun.step (.start 1000) lateCallback).inputs.getLast?) := by
  decide

end PiAgents.Detection
