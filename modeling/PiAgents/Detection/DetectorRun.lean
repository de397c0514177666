import PiAgents.Lib.Runs
import PiAgents.Detection.DroppedState

/-! Runs of `PortScanDetector` on one device: view sets and timers in any order. -/

namespace PiAgents.Detection

inductive DetectorEvent where
  | views (set : ViewSet) (nowMs : Int64)
  | timer (timestamp nowMs : Int64)
  deriving DecidableEq, Repr

def DetectorEvent.nowMs : DetectorEvent → Int64
  | .views _ nowMs => nowMs
  | .timer _ nowMs => nowMs

/-- The operator, the processing time of its last call and all that it has emitted. -/
structure DetectorRun where
  detector : PortScanDetector
  wallMs : Int64
  emitted : List Transition

namespace DetectorRun

def start (rule : PortScanRule) : DetectorRun := ⟨.new rule, 0, []⟩

def call (run : DetectorRun) : DetectorEvent → PortScanDetector × List Transition
  | .views set nowMs => run.detector.processElement set nowMs
  | .timer timestamp _ => run.detector.fire timestamp

def step (run : DetectorRun) (event : DetectorEvent) : DetectorRun :=
  ⟨(run.call event).1, event.nowMs, run.emitted ++ (run.call event).2⟩

def Allowed (run : DetectorRun) (event : DetectorEvent) : Prop :=
  run.wallMs ≤ event.nowMs ∧ match event with
    | .views _ _ => True
    | .timer timestamp nowMs => timestamp ∈ run.detector.timers ∧ timestamp ≤ nowMs

instance (run : DetectorRun) (event : DetectorEvent) : Decidable (run.Allowed event) :=
  match event with
  | .views _ _ => inferInstanceAs (Decidable (_ ∧ True))
  | .timer _ _ => inferInstanceAs (Decidable (_ ∧ _ ∧ _))

def viewed (run : DetectorRun) (set : ViewSet) (nowMs : Int64) : RuleState :=
  PortScanRule.received (run.detector.state.getD .new) set nowMs

/-- The state and the clock that the rule is evaluated on, if it is. -/
def evaluated (run : DetectorRun) : DetectorEvent → Option (RuleState × Int64)
  | .views set nowMs => some (run.viewed set nowMs, (run.viewed set nowMs).clockMs)
  | .timer timestamp _ => match run.detector.state with
    | none => none
    | some s => if s.clockMs = Int64.minValue then none else some (s, s.silentClock timestamp)

end DetectorRun

theorem PortScanDetector.finish_state (d : PortScanDetector) (s : RuleState) (nowMs : Int64) :
    (d.finish s nowMs).state = none ∨ (d.finish s nowMs).state = some s := by
  unfold finish
  split
  · exact Or.inl rfl
  · exact Or.inr (d.store_state s nowMs)

namespace DetectorRun

variable (run : DetectorRun)

/-- A step evaluates the rule once, or leaves its state; then the state may be dropped. -/
inductive Evaluates (event : DetectorEvent) : Prop where
  | once (s : RuleState) (clockMs ingestMs nowMs : Int64)
      (on : run.evaluated event = some (s, clockMs))
      (emits : (run.step event).emitted =
        run.emitted ++ (run.detector.rule.evaluate s clockMs ingestMs nowMs).2)
      (leaves : (run.step event).detector.state = none ∨ (run.step event).detector.state =
        some (run.detector.rule.evaluate s clockMs ingestMs nowMs).1)
  | never (on : run.evaluated event = none) (emits : (run.step event).emitted = run.emitted)
      (leaves : (run.step event).detector.state = none ∨
        (run.step event).detector.state = run.detector.state)

theorem step_evaluates (event : DetectorEvent) : run.Evaluates event := by
  cases event with
  | views set nowMs =>
      apply Evaluates.once (run.viewed set nowMs) (run.viewed set nowMs).clockMs set.ingest nowMs
      · rfl
      · rfl
      · exact run.detector.finish_state _ nowMs
  | timer timestamp nowMs =>
      cases held : run.detector.state with
      | none =>
          apply Evaluates.never
          · simp only [evaluated, held]
          · have silent : (run.detector.fire timestamp).2 = [] := by
              simp only [PortScanDetector.fire, PortScanDetector.onTimer, held]
            simp only [step, call, silent, List.append_nil]
          · left
            simp only [step, call, PortScanDetector.fire, PortScanDetector.onTimer, held]
      | some s =>
          have fired : run.detector.fire timestamp =
              (PortScanDetector.finish { run.detector with
                  timers := run.detector.timers.erase timestamp
                  pendingTimer := none } (run.detector.rule.onClock s timestamp).1 timestamp,
                (run.detector.rule.onClock s timestamp).2) := by
            simp only [PortScanDetector.fire, PortScanDetector.onTimer, held]
          have leaves := PortScanDetector.finish_state { run.detector with
              timers := run.detector.timers.erase timestamp
              pendingTimer := none } (run.detector.rule.onClock s timestamp).1 timestamp
          by_cases unseen : s.clockMs = Int64.minValue
          · have still : run.detector.rule.onClock s timestamp = (s, []) := if_pos unseen
            rw [still] at fired leaves
            apply Evaluates.never
            · simp only [evaluated, held, if_pos unseen]
            · simp only [step, call, fired, List.append_nil]
            · simp only [step, call, fired]
              rw [held]
              exact leaves
          · have evaluates : run.detector.rule.onClock s timestamp =
                run.detector.rule.evaluate s (s.silentClock timestamp) 0 timestamp :=
              if_neg unseen
            rw [evaluates] at fired leaves
            apply Evaluates.once s (s.silentClock timestamp) 0 timestamp
            · simp only [evaluated, held, if_neg unseen]
            · simp only [step, call, fired]
            · simp only [step, call, fired]
              exact leaves

theorem step_rule (event : DetectorEvent) :
    (run.step event).detector.rule = run.detector.rule := by
  cases event with
  | views set nowMs => exact run.detector.finish_rule _ nowMs
  | timer timestamp nowMs => exact run.detector.fire_rule timestamp

end DetectorRun

/-- An incident is resolved after three seconds, and its cooldown takes four. -/
def briefRule : PortScanRule := ⟨{ Config.v1 with holdMs := 3000, cooldownMs := 4000 }, probeDigest⟩

def briefViews (windowEndMs : Int64) (failed : Int32) (nowMs : Int64) : DetectorEvent :=
  .views ⟨probeKey, windowEndMs, [probeView 60 windowEndMs failed,
    probeView 900 windowEndMs failed]⟩ nowMs

end PiAgents.Detection
