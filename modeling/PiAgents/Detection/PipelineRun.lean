import PiAgents.Lib.Runs
import PiAgents.Detection.DroppedState
import PiAgents.Detection.Replay
import PiAgents.Detection.RuleTurns

/-! Runs of the pipeline beside the replay of their records: where the two differ, an evaluation
that no new record made has turned the incident. -/

namespace PiAgents.Detection

/-- What the views operator sent for a record, if anything, or for a tick. -/
inductive Parcel where
  | record (flow : FlowRecord) (set : Option ViewSet)
  | tick (set : ViewSet)

def Parcel.set? : Parcel → Option ViewSet
  | .record _ set => set
  | .tick set => some set

/-- The records as the rule comes past them, and the turns of the incident: whether a record turns
an active incident, the window end of a tick that turns it, the clock of a timer that does. -/
inductive Turn where
  | record (flow : FlowRecord) (turned : Bool)
  | tick (windowEndMs : Int64)
  | clock (clockMs : Int64)
  deriving DecidableEq

def skip : List Parcel → List Turn × List Parcel
  | .record flow none :: flight => (.record flow false :: (skip flight).1, (skip flight).2)
  | flight => ([], flight)

def turnOf (rule : PortScanRule) (s : RuleState) : Parcel → List Turn
  | .record flow _ => [.record flow (s.status = .active ∧ rule.Turns s s.clockMs)]
  | .tick set => if rule.Turns s s.clockMs then [.tick set.windowEndMs] else []

/-- A run of the pipeline, with what a replay knows of it: the furthest device clock, the windows
of the records alone, the view sets in flight with their origin, the rule state that is never
dropped, and the turns so far. -/
structure PipelineRun where
  pipeline : Pipeline
  wallMs : Int64
  emitted : List Transition
  reachedMs : Int64
  replay : DeviceWindows
  flight : List Parcel
  kept : RuleState
  turns : List Turn

namespace PipelineRun

def start (rule : PortScanRule) (shortMs longMs : Int64) (key : String) : PipelineRun where
  pipeline := .new rule shortMs longMs key
  wallMs := 0
  emitted := []
  reachedMs := Int64.minValue
  replay := .new [shortMs, longMs]
  flight := []
  kept := .new
  turns := []

def rule (run : PipelineRun) : PortScanRule := run.pipeline.detector.rule

def views (run : PipelineRun) : RollingViews := run.pipeline.views

/-- The turns up to now, with the records that the rule has nothing to learn from. -/
def story (run : PipelineRun) : List Turn := run.turns ++ (skip run.flight).1

def step (run : PipelineRun) (event : PipelineEvent) : PipelineRun :=
  let after := run.pipeline.step event
  let run' := { run with
    pipeline := after.1
    wallMs := event.nowMs
    emitted := run.emitted ++ after.2 }
  match event with
  | .record flow nowMs => { run' with
      reachedMs := mathMax run.reachedMs after.1.views.current.clockMs
      replay := run.replay.add flow
      flight := run.flight ++ [.record flow (run.views.processElement flow nowMs).2.head?] }
  | .viewsTimer timestamp _ => { run' with
      reachedMs := match run.views.ticked timestamp with
        | some moved => mathMax run.reachedMs moved.1.clockMs
        | none => run.reachedMs
      flight := run.flight ++ (run.views.fire timestamp).2.map .tick }
  | .deliver nowMs =>
    match run.pipeline.channel, (skip run.flight).2 with
    | set :: _, parcel :: flight => { run' with
        flight
        kept := (run.rule.onViews run.kept set nowMs).1
        turns := run.story ++ turnOf run.rule (PortScanRule.received run.kept set nowMs) parcel }
    | _, _ => run'
  | .ruleTimer timestamp _ => { run' with
      kept := (run.rule.onClock run.kept timestamp).1
      turns := run.turns ++
        if run.rule.Turns run.kept (run.kept.silentClock timestamp)
        then [.clock (run.kept.silentClock timestamp)] else [] }

def Allowed (run : PipelineRun) (event : PipelineEvent) : Prop :=
  run.wallMs ≤ event.nowMs ∧ run.pipeline.Enabled event

/-- A record is newer than the device clock so far, or comes before a timer has moved the clock of
the last record; and the rule state remembers what a new view set needs of the last incident. -/
def Undisturbed (run : PipelineRun) : PipelineEvent → Prop
  | .record flow _ => 0 < flow.eventTimeMs ∧ (run.reachedMs < flow.eventTimeMs ∨
      (run.views.windows.isSome ∧ run.replay.clockMs = run.reachedMs))
  | .deliver _ => ∀ set ∈ run.pipeline.channel.head?,
      run.rule.Remembers run.pipeline.detector.state run.kept set
  | _ => True

end PipelineRun

/-! What a view set in flight is, in terms of the replay. -/

def viewSet (key : String) (w : DeviceWindows) : ViewSet := ⟨key, w.clockMs, w.views key⟩

def failedCounts (views : List View) : List Int32 := views.map View.failedTargets

/-- The replay up to a point of the flight, with the views last sent and their window end. -/
structure Position where
  windows : DeviceWindows
  held : List View
  endMs : Int64

namespace Position

def pass (p : Position) : Parcel → Position
  | .record flow none => { p with windows := p.windows.add flow }
  | .record flow (some set) => ⟨p.windows.add flow, set.views, set.windowEndMs⟩
  | .tick set => ⟨p.windows, set.views, set.windowEndMs⟩

/-- A set carries the views of the replay, or of the replay advanced to its window end; no set is
sent for a record that leaves the counts as last sent. -/
def Fits (key : String) (p : Position) : Parcel → Prop
  | .record flow none =>
    failedCounts ((p.windows.add flow).views key) = failedCounts p.held ∧
      ((p.windows.add flow).views key).length = 2
  | .record flow (some set) => set = viewSet key (p.windows.add flow) ∧ set.views.length = 2 ∧
      p.endMs ≤ set.windowEndMs ∧ 0 < set.windowEndMs
  | .tick set => set = viewSet key (p.windows.advanceTo set.windowEndMs).1 ∧
      set.views.length = 2 ∧ p.endMs ≤ set.windowEndMs ∧ 0 < set.windowEndMs

end Position

/-- The flight holds what the views operator sends from this position on. -/
def Carries (key : String) : Position → List Parcel → Prop :=
  Runs.Meets Position.pass (Position.Fits key)

end PiAgents.Detection
