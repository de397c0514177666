import PiAgents.Detection.PortScanRule

/-! `PortScanDetector` on one key, and the pipeline from `RollingViews` to it: the view sets of a
device travel between the two operators in order, and each operator has its own timers. -/

namespace PiAgents.Detection

/-- The keyed state of the operator and the timers registered for the key. -/
structure PortScanDetector where
  rule : PortScanRule
  state : Option RuleState
  pendingTimer : Option Int64
  timers : List Int64

namespace PortScanDetector

def tickMs : Int64 := 5000

def new (rule : PortScanRule) : PortScanDetector := ⟨rule, none, none, []⟩

def drop (d : PortScanDetector) : PortScanDetector :=
  let timers := match d.pendingTimer with
    | some pending => d.timers.erase pending
    | none => d.timers
  { d with state := none, pendingTimer := none, timers }

/-- The state is stored, and a timer is kept while time can still change it. -/
def store (d : PortScanDetector) (s : RuleState) (nowMs : Int64) : PortScanDetector :=
  let d := { d with state := some s }
  if s.status ≠ .none ∧ d.pendingTimer = none then
    { d with timers := d.timers.insert (nowMs + tickMs), pendingTimer := some (nowMs + tickMs) }
  else d

def finish (d : PortScanDetector) (s : RuleState) (nowMs : Int64) : PortScanDetector :=
  if d.rule.idle s (s.silentClock nowMs) then d.drop else d.store s nowMs

def processElement (d : PortScanDetector) (views : ViewSet) (nowMs : Int64) :
    PortScanDetector × List Transition :=
  let (s, out) := d.rule.onViews (d.state.getD .new) views nowMs
  (d.finish s nowMs, out)

def onTimer (d : PortScanDetector) (timestamp : Int64) : PortScanDetector × List Transition :=
  let d := { d with pendingTimer := none }
  match d.state with
  | none => (d, [])
  | some s =>
    let (s, out) := d.rule.onClock s timestamp
    (d.finish s timestamp, out)

/-- The timer service removes a timer before it calls `onTimer`. -/
def fire (d : PortScanDetector) (timestamp : Int64) : PortScanDetector × List Transition :=
  { d with timers := d.timers.erase timestamp }.onTimer timestamp

end PortScanDetector

/-- What happens to one device: a flow record or a view set is processed, or a timer fires. -/
inductive PipelineEvent where
  | record (record : FlowRecord) (nowMs : Int64)
  | viewsTimer (timestamp nowMs : Int64)
  | deliver (nowMs : Int64)
  | ruleTimer (timestamp nowMs : Int64)
  deriving DecidableEq, Repr

structure Pipeline where
  views : RollingViews
  channel : List ViewSet
  detector : PortScanDetector

namespace Pipeline

def new (rule : PortScanRule) (shortMs longMs : Int64) (key : String) : Pipeline :=
  ⟨.new [shortMs, longMs] key, [], .new rule⟩

def step (p : Pipeline) : PipelineEvent → Pipeline × List Transition
  | .record record nowMs =>
    let (views, sets) := p.views.processElement record nowMs
    ({ p with views, channel := p.channel ++ sets }, [])
  | .viewsTimer timestamp _ =>
    let (views, sets) := p.views.fire timestamp
    ({ p with views, channel := p.channel ++ sets }, [])
  | .deliver nowMs =>
    match p.channel with
    | [] => (p, [])
    | set :: channel =>
      let (detector, out) := p.detector.processElement set nowMs
      ({ p with detector, channel }, out)
  | .ruleTimer timestamp _ =>
    let (detector, out) := p.detector.fire timestamp
    ({ p with detector }, out)

/-- A timer fires when it is registered and due. -/
def Enabled (p : Pipeline) : PipelineEvent → Prop
  | .record _ _ => True
  | .viewsTimer timestamp nowMs => timestamp ∈ p.views.timers ∧ timestamp ≤ nowMs
  | .deliver _ => p.channel ≠ []
  | .ruleTimer timestamp nowMs => timestamp ∈ p.detector.timers ∧ timestamp ≤ nowMs

end Pipeline

def PipelineEvent.nowMs : PipelineEvent → Int64
  | .record _ nowMs => nowMs
  | .viewsTimer _ nowMs => nowMs
  | .deliver nowMs => nowMs
  | .ruleTimer _ nowMs => nowMs

end PiAgents.Detection
