import PiAgents.Detection.Watch

/-! A device that goes silent: the timers of its two operators fire a bounded number of times, and then
nothing is held. -/

namespace PiAgents.Detection

namespace Watch

/-- No windows are held, and the last view set is delivered. -/
def Quiet (run : Watch) : Prop := run.views.windows = none ∧ run.pipeline.channel = []

structure Empty (run : Watch) : Prop where
  windows : run.views.windows = none ∧ run.views.lastEventWallMs = none ∧
    run.views.pendingTimer = none ∧ run.views.lastViews = none ∧ run.views.timers = []
  state : run.detector.state = none ∧ run.detector.pendingTimer = none ∧ run.detector.timers = []

/-- An incident has been closed by what was emitted since: at most an update, and a resolve that is
there once no timer is left. -/
structure Closes (run : Watch) (incidentId : String) (out : List Transition) : Prop where
  own : ∀ t ∈ out, t.incidentId = incidentId
  order : out.map (·.status) <+: [.resolve] ∨ out.map (·.status) <+: [.update, .resolve]
  once : run.detector.timers = [] →
    out.map (·.status) = [.resolve] ∨ out.map (·.status) = [.update, .resolve]

/-- What silence does from a state: it takes away all that is held, in a bounded number of timers. -/
structure Drains (longestMs : Nat) (run : Watch) : Prop where
  viewsTimer : (run.views.windows.isSome ↔ run.views.timers.length = 1) ∧
    (run.views.windows = none → run.views.timers = [])
  ruleTimer : ∀ s ∈ run.detector.state, s.status ≠ .none → run.detector.timers.length = 1
  viewsFirings : ∀ rest, Runs.Meets step Silent run rest →
    rest.countP PipelineEvent.isViewsTimer ≤ longestMs / 5000 + 2
  ruleFirings : run.Quiet → ∀ rest, Runs.Meets step Silent run rest →
    rest.countP PipelineEvent.isRuleTimer ≤ (run.detector.rule.config.holdMs.toInt.toNat +
      run.detector.rule.config.cooldownMs.toInt.toNat + run.detector.delayMs) / 5000 + 3
  emptied : run.views.timers = [] → run.pipeline.channel = [] → run.detector.timers = [] → run.Empty
  closes : ∀ s ∈ run.detector.state, s.status = .active → run.views.windows = none →
    ∀ set, run.pipeline.channel = [set] → ∀ nowMs rest,
      Runs.Meets step Silent run (.deliver nowMs :: rest) → ∃ out,
        (Runs.run step run (.deliver nowMs :: rest)).emitted = run.emitted ++ out ∧
        (Runs.run step run (.deliver nowMs :: rest)).Closes s.incidentId out

section Drain

variable {rule : PortScanRule} {shortMs longMs : Int64} {key : String} {run : Watch}

/-- A silent step leaves what `RollingViews` holds, or one of its timers fires. -/
theorem Sound.silent_ticks (sound : run.Sound rule shortMs longMs key)
    (positive : ∀ length ∈ [shortMs, longMs], 0 < length) {event : PipelineEvent}
    (silent : run.Silent event) :
    (run.step event).views.ticksLeft (max shortMs.toInt longMs.toInt) +
        (if event.isViewsTimer then 1 else 0) ≤
      run.views.ticksLeft (max shortMs.toInt longMs.toInt) := by
  cases event with
  | record flow nowMs => cases silent.2
  | viewsTimer timestamp nowMs =>
      exact (sound.viewsTimer timestamp nowMs positive silent.1).2
  | deliver nowMs =>
      have same : (run.step (.deliver nowMs)).views = run.views := by
        cases flight : run.pipeline.channel with
        | nil => exact absurd flight silent.1.2.1
        | cons set rest => simp only [views, step, Pipeline.step, flight]
      rw [same]
      exact Nat.le_refl _
  | ruleTimer timestamp nowMs => exact Nat.le_refl _

theorem Quiet.event (quiet : run.Quiet) (sound : run.Sound rule shortMs longMs key)
    {event : PipelineEvent} (silent : run.Silent event) :
    ∃ timestamp nowMs, event = .ruleTimer timestamp nowMs := by
  cases event with
  | record flow nowMs => cases silent.2
  | viewsTimer timestamp nowMs =>
      rcases sound.viewsArmed.due silent.1.2.1.1 with ⟨_, w, windows⟩
      rw [quiet.1] at windows
      cases windows
  | deliver nowMs => exact absurd quiet.2 silent.1.2.1
  | ruleTimer timestamp nowMs => exact ⟨timestamp, nowMs, rfl⟩

theorem Quiet.spent (quiet : run.Quiet) (sound : run.Sound rule shortMs longMs key)
    (bounded : rule.config.Bounded) : ∀ s ∈ run.detector.state, run.detector.rule.Spent s := by
  intro s held
  rcases sound.shown s held with ⟨front, set, split, short, long, pair, isShort, isLong⟩
  rw [quiet.2] at split
  have zero := (sound.current.cleared quiet.1).2 set (by rw [emissions, split]; exact List.getLast?_concat)
  rw [pair] at zero
  rw [sound.same]
  exact PortScanRule.spent_of_zero bounded isShort isLong zero

theorem Quiet.ruleTimer (quiet : run.Quiet) (timestamp nowMs : Int64) :
    (run.step (.ruleTimer timestamp nowMs)).Quiet := quiet

theorem Quiet.lowers (quiet : run.Quiet) (sound : run.Sound rule shortMs longMs key)
    (bounded : rule.config.Bounded) {timestamp nowMs : Int64}
    (allowed : run.Allowed (.ruleTimer timestamp nowMs)) :
    (run.step (.ruleTimer timestamp nowMs)).detector.firingsLeft + 1 ≤
      run.detector.firingsLeft := by
  rcases allowed with ⟨forward, ⟨due, reached⟩, now, _⟩
  rw [Int64.le_iff_toInt_le] at forward reached
  exact sound.ruleAging.lowers sound.ruleArmed due reached forward now (quiet.spent sound bounded)

theorem Sound.viewsFirings (sound : run.Sound rule shortMs longMs key)
    (bounded : rule.config.Bounded) (positive : ∀ length ∈ [shortMs, longMs], 0 < length)
    (rest : List PipelineEvent) (silent : Runs.Meets step Silent run rest) :
    rest.countP PipelineEvent.isViewsTimer ≤
      (max shortMs.toInt longMs.toInt).toNat / 5000 + 2 := by
  have first := Int64.lt_iff_toInt_lt.mp (positive shortMs List.mem_cons_self)
  have zero : (0 : Int64).toInt = 0 := rfl
  have longest : ((max shortMs.toInt longMs.toInt).toNat : Int) = max shortMs.toInt longMs.toInt :=
    Int.toNat_of_nonneg (by omega)
  calc rest.countP PipelineEvent.isViewsTimer
    _ ≤ run.views.ticksLeft (max shortMs.toInt longMs.toInt) := by
      apply Runs.count_le _ (fun run => run.views.ticksLeft (max shortMs.toInt longMs.toInt))
        (fun state event sound silent => step_sound bounded positive state event sound silent.1)
        (fun state event sound silent => sound.silent_ticks positive silent) sound silent
    _ ≤ _ := by
      rw [← longest]
      exact sound.viewsAging.ticksLeft_le _

theorem Quiet.ruleFirings (quiet : run.Quiet) (sound : run.Sound rule shortMs longMs key)
    (bounded : rule.config.Bounded) (positive : ∀ length ∈ [shortMs, longMs], 0 < length)
    (rest : List PipelineEvent) (silent : Runs.Meets step Silent run rest) :
    rest.countP PipelineEvent.isRuleTimer ≤ run.detector.firingsLeft := by
  have preserves : ∀ (state : Watch) (event : PipelineEvent),
      state.Sound rule shortMs longMs key ∧ state.Quiet → state.Silent event →
        (state.step event).Sound rule shortMs longMs key ∧ (state.step event).Quiet := by
    intro state event held silent
    rcases held.2.event held.1 silent with ⟨timestamp, nowMs, rfl⟩
    exact ⟨step_sound bounded positive state _ held.1 silent.1, held.2⟩
  apply Runs.count_le _ (fun run => run.detector.firingsLeft) preserves ?_ ⟨sound, quiet⟩ silent
  intro state event held silent
  rcases held.2.event held.1 silent with ⟨timestamp, nowMs, rfl⟩
  exact held.2.lowers held.1 bounded silent.1

/-- Without timers and without sets in flight nothing is held. -/
theorem Sound.emptied (sound : run.Sound rule shortMs longMs key) (bounded : rule.config.Bounded)
    (viewsTimers : run.views.timers = []) (channel : run.pipeline.channel = [])
    (ruleTimers : run.detector.timers = []) : run.Empty := by
  have views := sound.viewsArmed
  have pending : run.views.pendingTimer = none := by
    rw [views.registered] at viewsTimers
    exact Option.toList_eq_nil_iff.mp viewsTimers
  have windows : run.views.windows = none := views.pending_iff.mp pending
  have waiting : run.detector.pendingTimer = none := by
    have registered := sound.ruleArmed.registered
    rw [ruleTimers] at registered
    exact Option.toList_eq_nil_iff.mp registered.symm
  have lastWall : run.views.lastEventWallMs = none := by
    cases sound.viewsAging with
    | cleared none lastWall => exact lastWall
    | holding w lastWallMs timerMs held lastWall pending covering near clock walls timer =>
        rw [windows] at held
        cases held
  refine ⟨⟨windows, lastWall, pending, (sound.current.cleared windows).1, viewsTimers⟩, ?_, waiting,
    ruleTimers⟩
  cases held : run.detector.state with
  | none => rfl
  | some s =>
      have quiet : run.Quiet := ⟨windows, channel⟩
      have nothing := (quiet.spent sound bounded s held).nothing
      have inactive : s.status = .none := by
        by_contra busy
        have known := sound.ruleArmed.holds.mpr ⟨s, held, busy⟩
        rw [waiting] at known
        cases known
      rw [sound.ruleAging.evident s held inactive] at nothing
      cases nothing

theorem Quiet.run_closes (quiet : run.Quiet) (sound : run.Sound rule shortMs longMs key)
    (bounded : rule.config.Bounded) (positive : ∀ length ∈ [shortMs, longMs], 0 < length)
    {incidentId : String} {out : List Transition} (closing : run.detector.Closing incidentId out)
    (rest : List PipelineEvent) (silent : Runs.Meets step Silent run rest) :
    ∃ more, (Runs.run step run rest).emitted = run.emitted ++ more ∧
      (Runs.run step run rest).detector.Closing incidentId (out ++ more) ∧
      (Runs.run step run rest).Sound rule shortMs longMs key := by
  induction rest generalizing run out with
  | nil =>
      refine ⟨[], (List.append_nil _).symm, ?_, sound⟩
      rw [List.append_nil]
      exact closing
  | cons event rest ih =>
      rcases quiet.event sound silent.1 with ⟨timestamp, nowMs, rfl⟩
      have next := step_sound bounded positive run _ sound silent.1.1
      have closes := closing.fire sound.ruleAging sound.ruleArmed silent.1.1.2.1.1
        (quiet.spent sound bounded)
      rcases ih (quiet.ruleTimer timestamp nowMs) next closes silent.2 with
        ⟨more, emitted, closed, after⟩
      refine ⟨(run.detector.fire timestamp).2 ++ more, ?_, ?_, after⟩
      · rw [Runs.run_cons, emitted, ← List.append_assoc]
        rfl
      · rw [← List.append_assoc]
        exact closed

theorem Sound.closes (sound : run.Sound rule shortMs longMs key) {incidentId : String}
    {out : List Transition} (closing : run.detector.Closing incidentId out) :
    run.Closes incidentId out := by
  cases closing with
  | active s held active told same few own =>
      refine ⟨own, ?_, ?_⟩
      · rcases few with nothing | update
        · rw [nothing]
          exact Or.inl (List.nil_prefix)
        · rw [update]
          exact Or.inr ⟨[.resolve], rfl⟩
      · intro none
        have busy : s.status ≠ .none := by
          rw [active]
          exact RuleStatus.noConfusion
        have known := sound.ruleArmed.holds.mpr ⟨s, held, busy⟩
        have registered := sound.ruleArmed.registered
        rw [none] at registered
        rw [Option.toList_eq_nil_iff.mp registered.symm] at known
        cases known
  | resolved resolved once own =>
      refine ⟨own, ?_, fun _ => once⟩
      exact once.imp (fun same => by rw [same]) (fun same => by rw [same])

theorem Sound.run_closes (sound : run.Sound rule shortMs longMs key)
    (bounded : rule.config.Bounded) (positive : ∀ length ∈ [shortMs, longMs], 0 < length)
    {s : RuleState} (held : run.detector.state = some s) (active : s.status = .active)
    (windows : run.views.windows = none) {set : ViewSet} (channel : run.pipeline.channel = [set])
    (nowMs : Int64) (rest : List PipelineEvent)
    (silent : Runs.Meets step Silent run (.deliver nowMs :: rest)) :
    ∃ out, (Runs.run step run (.deliver nowMs :: rest)).emitted = run.emitted ++ out ∧
      (Runs.run step run (.deliver nowMs :: rest)).Closes s.incidentId out := by
  have next := step_sound bounded positive run _ sound silent.1.1
  have stepped : run.pipeline.step (.deliver nowMs) = ({ run.pipeline with
      detector := (run.detector.processElement set nowMs).1, channel := [] },
        (run.detector.processElement set nowMs).2) := by
    simp only [Pipeline.step, channel]
    rfl
  have quiet : (run.step (.deliver nowMs)).Quiet :=
    ⟨(congrArg (fun p => p.1.views.windows) stepped).trans windows,
      congrArg (fun p => p.1.channel) stepped⟩
  have closing : (run.step (.deliver nowMs)).detector.Closing s.incidentId
      (run.detector.processElement set nowMs).2 := by
    have detector : (run.step (.deliver nowMs)).detector = (run.detector.processElement set nowMs).1 :=
      congrArg (fun p => p.1.detector) stepped
    rw [detector]
    exact PortScanDetector.closing_process held active set nowMs
  rcases quiet.run_closes next bounded positive closing rest silent.2 with
    ⟨more, emitted, closed, after⟩
  refine ⟨(run.detector.processElement set nowMs).2 ++ more, ?_, after.closes closed⟩
  have first : (run.step (.deliver nowMs)).emitted =
      run.emitted ++ (run.detector.processElement set nowMs).2 :=
    congrArg (fun p : Pipeline × List Transition => run.emitted ++ p.2) stepped
  rw [Runs.run_cons, emitted, first, List.append_assoc]

theorem Sound.drains (sound : run.Sound rule shortMs longMs key) (bounded : rule.config.Bounded)
    (hold : 0 ≤ rule.config.holdMs) (cooldown : 0 ≤ rule.config.cooldownMs)
    (positive : ∀ length ∈ [shortMs, longMs], 0 < length) :
    run.Drains (max shortMs.toInt longMs.toInt).toNat := by
  have views := sound.viewsArmed
  refine ⟨⟨?_, ?_⟩, ?_, sound.viewsFirings bounded positive, ?_, sound.emptied bounded, ?_⟩
  · rw [views.registered, ← views.holds]
    cases run.views.pendingTimer with
    | none => simp
    | some timerMs => simp
  · intro windows
    rw [views.registered, views.pending_iff.mpr windows]
    rfl
  · intro s held busy
    have known := sound.ruleArmed.holds.mpr ⟨s, held, busy⟩
    rcases Option.isSome_iff_exists.mp known with ⟨timerMs, pending⟩
    rw [sound.ruleArmed.registered, pending]
    rfl
  · intro quiet rest silent
    apply (quiet.ruleFirings sound bounded positive rest silent).trans
    apply sound.ruleAging.firingsLeft_le
    · rw [sound.same]
      exact hold
    · rw [sound.same]
      exact cooldown
  · intro s held active windows set channel nowMs rest silent
    exact sound.run_closes bounded positive held active windows channel nowMs rest silent

end Drain

/-- In every reachable state the timers are registered; from it a silent device is left by its last
timer after a bounded number of firings, and then nothing is held. -/
theorem silence_drains (rule : PortScanRule) (bounded : rule.config.Bounded)
    (hold : 0 ≤ rule.config.holdMs) (cooldown : 0 ≤ rule.config.cooldownMs) (shortMs longMs : Int64)
    (positiveShort : 0 < shortMs) (positiveLong : 0 < longMs) (key : String)
    (events : List PipelineEvent)
    (met : Runs.Meets step Allowed (start rule shortMs longMs key) events) :
    (Runs.run step (start rule shortMs longMs key) events).Drains
      (max shortMs.toInt longMs.toInt).toNat := by
  have positive : ∀ length ∈ [shortMs, longMs], 0 < length :=
    List.forall_mem_cons.mpr ⟨positiveShort, List.forall_mem_singleton.mpr positiveLong⟩
  have sound := Runs.run_invariant (step_sound bounded positive)
    (start_sound rule shortMs longMs key) met
  exact sound.drains bounded hold cooldown positive

/-- A scan, and the silence until its views have expired; the last view set is in flight. -/
def sweepSilent : List PipelineEvent := sweepBegun ++ [.viewsTimer 1010 1010]

theorem silence_drains_sweep :
    (Runs.run step (start sweepRule 1000 1000 probeKey) sweepSilent).Drains
        (max (1000 : Int64).toInt (1000 : Int64).toInt).toNat ∧
      (Runs.run step (start sweepRule 1000 1000 probeKey) sweepSilent).views.windows = none ∧
      (Runs.run step (start sweepRule 1000 1000 probeKey) sweepSilent).pipeline.channel.length = 1 ∧
      (Runs.run step (start sweepRule 1000 1000 probeKey) sweepSilent).detector.timers = [5010] :=
  ⟨silence_drains sweepRule sweep_valid.bounded (by decide) (by decide) 1000 1000 (by decide)
    (by decide) probeKey sweepSilent (by decide), rfl, by decide, by decide⟩

/-! A clock that cannot advance, and a timer that has to catch up. -/

def Timely (run : Watch) (event : PipelineEvent) : Prop :=
  run.wallMs ≤ event.nowMs ∧ run.pipeline.Enabled event

instance (run : Watch) (event : PipelineEvent) : Decidable (run.Timely event) :=
  inferInstanceAs (Decidable (_ ∧ _))

def viewsTicks : Int64 → Nat → List PipelineEvent
  | _, 0 => []
  | timerMs, n + 1 => .viewsTimer timerMs timerMs :: viewsTicks (timerMs + tickMs) n

def ruleTicks (nowMs : Int64) : Int64 → Nat → List PipelineEvent
  | _, 0 => []
  | timerMs, n + 1 =>
    .ruleTimer timerMs nowMs :: ruleTicks nowMs (timerMs + PortScanDetector.tickMs) n

theorem viewsTicks_count (timerMs : Int64) (n : Nat) :
    (viewsTicks timerMs n).countP PipelineEvent.isViewsTimer = n ∧
      ∀ event ∈ viewsTicks timerMs n, event.isRecord = false := by
  induction n generalizing timerMs with
  | zero => exact ⟨rfl, fun event member => by cases member⟩
  | succ n ih =>
      rcases ih (timerMs + tickMs) with ⟨count, silent⟩
      rw [viewsTicks, List.countP_cons_of_pos rfl, count]
      exact ⟨rfl, List.forall_mem_cons.mpr ⟨rfl, silent⟩⟩

theorem ruleTicks_count (nowMs timerMs : Int64) (n : Nat) :
    (ruleTicks nowMs timerMs n).countP PipelineEvent.isRuleTimer = n := by
  induction n generalizing timerMs with
  | zero => rfl
  | succ n ih => rw [ruleTicks, List.countP_cons_of_pos rfl, ih]

theorem viewsTicks_hold {w : DeviceWindows} (last : w.clockMs = Int64.maxValue)
    (full : w.isEmpty = false) (n : Nat) {run : Watch} (armed : run.views.Armed)
    (windows : run.views.windows = some w) {timerMs : Int64}
    (pending : run.views.pendingTimer = some timerMs) (reached : run.wallMs ≤ timerMs)
    (nonneg : 0 ≤ timerMs.toInt) (room : timerMs.toInt + 5000 * n < 2 ^ 63) :
    Runs.Meets step Timely run (viewsTicks timerMs n) ∧
      (Runs.run step run (viewsTicks timerMs n)).views.windows = some w := by
  induction n generalizing run timerMs with
  | zero => exact ⟨trivial, windows⟩
  | succ n ih =>
      have due : timerMs ∈ run.views.timers := by
        rw [armed.registered, pending]
        exact List.mem_singleton_self timerMs
      have still : w.advanceTo (run.views.silentClock w timerMs) = (w, false) := by
        rw [DeviceWindows.advanceTo, last]
        exact if_pos (Int64.le_maxValue _)
      have left' := (run.views.fire_windows timerMs w windows).1
      have next := run.views.fire_pending timerMs w windows
      rw [still, if_neg (Bool.eq_false_iff.mp full)] at left' next
      have tick : tickMs.toInt = 5000 := rfl
      have sum := Exact.add timerMs tickMs (by omega) (by omega)
      have later : timerMs ≤ timerMs + tickMs := by
        rw [Int64.le_iff_toInt_le]
        omega
      have fired : (run.step (.viewsTimer timerMs timerMs)).views.Armed := armed.fire due
      have rest := ih fired left' next later (by omega) (by omega)
      exact ⟨⟨⟨reached, due, Int64.le_refl _⟩, rest.1⟩, rest.2⟩

theorem ruleTicks_hold {rule : PortScanRule} {s : RuleState} (active : s.status = .active)
    (told : ¬ rule.Changed s) (unsettled : ¬ rule.Settled s s.clockMs)
    (since : rule.clearSince s s.clockMs = s.clearSinceMs) (set : s.clockMs ≠ Int64.minValue)
    (near : s.clockWallMs < farMs) (n : Nat) {run : Watch} {timerMs : Int64}
    (held : run.detector = ⟨rule, some s, some timerMs, [timerMs]⟩)
    (reached : run.wallMs ≤ s.clockWallMs) (nonneg : 0 ≤ timerMs.toInt)
    (behind : timerMs.toInt + 5000 * n ≤ s.clockWallMs.toInt) :
    Runs.Meets step Silent run (ruleTicks s.clockWallMs timerMs n) ∧
      (Runs.run step run (ruleTicks s.clockWallMs timerMs n)).detector.state = some s := by
  induction n generalizing run timerMs with
  | zero => exact ⟨trivial, congrArg PortScanDetector.state held⟩
  | succ n ih =>
      have limit := Int64.lt_iff_toInt_lt.mp near
      rw [farMs_toInt] at limit
      have zero : (0 : Int64).toInt = 0 := rfl
      have silent : s.silentClock timerMs = s.clockMs := by
        have difference := Exact.sub timerMs s.clockWallMs (by omega) (by omega)
        have elapsed : mathMax 0 (timerMs - s.clockWallMs) = 0 := by
          apply Int64.toInt_inj.mp
          rw [mathMax_toInt, difference]
          omega
        rw [RuleState.silentClock, elapsed, Int64.add_zero]
      have evaluated : rule.onClock s timerMs = (s, []) := by
        rw [PortScanRule.onClock, if_neg set, silent,
          rule.evaluate_unchanged s _ _ _ active unsettled told, PortScanRule.kept, since]
      have busy : s.status ≠ .none := by
        rw [active]
        exact RuleStatus.noConfusion
      have kept : ¬ rule.idle s (s.silentClock timerMs) = true := by
        simp [PortScanRule.idle, active]
      have fired : run.detector.fire timerMs = (⟨rule, some s, some (timerMs + PortScanDetector.tickMs),
          [timerMs + PortScanDetector.tickMs]⟩, []) := by
        rw [held]
        simp only [PortScanDetector.fire, PortScanDetector.onTimer, evaluated, List.erase_cons_head]
        rw [PortScanDetector.finish_fired _ _ busy, if_neg kept]
      have tick : PortScanDetector.tickMs.toInt = 5000 := rfl
      have sum := Exact.add timerMs PortScanDetector.tickMs (by omega) (by omega)
      have due : timerMs ∈ run.detector.timers := by
        rw [held]
        exact List.mem_singleton_self timerMs
      have order : timerMs ≤ s.clockWallMs := by
        rw [Int64.le_iff_toInt_le]
        omega
      have stepped : (run.step (.ruleTimer timerMs s.clockWallMs)).detector = _ :=
        congrArg Prod.fst fired
      have rest := ih stepped (Int64.le_refl _) (by omega) (by omega)
      exact ⟨⟨⟨⟨reached, ⟨due, order⟩, near, trivial⟩, rfl⟩, rest.1⟩, rest.2⟩

def farRecord : List PipelineEvent :=
  [.record { sweepFlow 1000 22 4 with eventTimeMs := Int64.maxValue } 10]

/-- The last view set comes when the timer of the incident is long overdue. -/
def sweepOverdue : List PipelineEvent := sweepSilent ++ [.deliver 5000000005010]

/-- A thousand million timers do not clear windows at the last clock; nor do they resolve an incident
while they catch up with the wall time at which its last views came. -/
theorem silence_undrained :
    (Runs.Meets step Timely (start sweepRule 1000 1000 probeKey) farRecord ∧
      ∃ rest, Runs.Meets step Timely (Runs.run step (start sweepRule 1000 1000 probeKey) farRecord)
          rest ∧ (∀ event ∈ rest, event.isRecord = false) ∧
        rest.countP PipelineEvent.isViewsTimer = 10 ^ 9 ∧
        (Runs.run step (Runs.run step (start sweepRule 1000 1000 probeKey) farRecord)
          rest).views.windows ≠ none) ∧
    (Runs.Meets step Allowed (start sweepRule 1000 1000 probeKey) sweepOverdue ∧
      (Runs.run step (start sweepRule 1000 1000 probeKey) sweepOverdue).Quiet ∧
      ∃ rest, Runs.Meets step Silent (Runs.run step (start sweepRule 1000 1000 probeKey)
          sweepOverdue) rest ∧ rest.countP PipelineEvent.isRuleTimer = 10 ^ 9 ∧
        (Runs.run step (Runs.run step (start sweepRule 1000 1000 probeKey) sweepOverdue)
          rest).detector.state ≠ none) := by
  constructor
  · refine ⟨by decide, ?_⟩
    have shown : (Runs.run step (start sweepRule 1000 1000 probeKey) farRecord).views.windows.map
        (fun w => (w.clockMs, w.isEmpty)) = some (Int64.maxValue, false) := by decide
    rcases Option.map_eq_some_iff.mp shown with ⟨w, windows, facts⟩
    have armed : (Runs.run step (start sweepRule 1000 1000 probeKey) farRecord).views.Armed :=
      ⟨rfl, rfl⟩
    have pending : (Runs.run step (start sweepRule 1000 1000 probeKey)
        farRecord).views.pendingTimer = some 1010 := rfl
    have held := viewsTicks_hold (congrArg Prod.fst facts) (congrArg Prod.snd facts) (10 ^ 9) armed
      windows pending (by decide) (by decide) (by decide)
    have count := viewsTicks_count 1010 (10 ^ 9)
    refine ⟨viewsTicks 1010 (10 ^ 9), held.1, count.2, count.1, ?_⟩
    rw [held.2]
    exact Option.some_ne_none w
  · refine ⟨by decide, ⟨rfl, rfl⟩, ?_⟩
    have shown : (Runs.run step (start sweepRule 1000 1000 probeKey) sweepOverdue).detector.state.map
        (fun s => (s.status, s.clockMs, s.clockWallMs, decide (sweepRule.Changed s),
          decide (sweepRule.Settled s s.clockMs), decide (sweepRule.clearSince s s.clockMs =
            s.clearSinceMs))) =
        some (.active, 2000, 5000000005010, false, false, true) := by decide +kernel
    rcases Option.map_eq_some_iff.mp shown with ⟨s, state, facts⟩
    simp only [Prod.mk.injEq, decide_eq_false_iff_not, decide_eq_true_eq] at facts
    rcases facts with ⟨active, clock, wall, told, unsettled, since⟩
    have detector : (Runs.run step (start sweepRule 1000 1000 probeKey) sweepOverdue).detector =
        ⟨sweepRule, some s, some 5010, [5010]⟩ := by
      rw [← state]
      rfl
    have held := ruleTicks_hold active told unsettled since (by rw [clock]; decide)
      (by rw [wall]; decide) (10 ^ 9) detector (by rw [wall]; decide) (by decide)
      (by rw [wall]; decide)
    refine ⟨ruleTicks s.clockWallMs 5010 (10 ^ 9), held.1, ruleTicks_count _ _ _, ?_⟩
    rw [held.2]
    exact Option.some_ne_none s

end Watch

end PiAgents.Detection
