import PiAgents.Detection.DeviceWindows

/-! `RollingViews` on one key: the rolling views of a device are emitted whenever an aggregate
changes, and a processing-time timer moves the device clock while the device is silent. -/

namespace PiAgents.Detection

def firstTickMs : Int64 := 1000
def tickMs : Int64 := 5000

structure ViewSet where
  deviceKey : String
  windowEndMs : Int64
  views : List View
  deriving DecidableEq, Repr

/-- One round of the loop of `latestEventTime` over the horizons. -/
def Horizon.latest (latest : Int64) (h : Horizon) : Int64 :=
  match h.contributions.getLast? with
  | some last => mathMax latest last.eventTimeMs
  | none => latest

namespace DeviceWindows

def newestTime (w : DeviceWindows) : Int64 := w.horizons.foldl Horizon.latest Int64.minValue

def latestEventTime (w : DeviceWindows) : Int64 :=
  if w.newestTime = Int64.minValue then w.clockMs else w.newestTime

end DeviceWindows

/-- The keyed state of the operator and the timers registered for the key. -/
structure RollingViews where
  horizonsMs : List Int64
  currentKey : String
  windows : Option DeviceWindows
  /-- Processing time of the last event that moved the device clock. -/
  lastEventWallMs : Option Int64
  pendingTimer : Option Int64
  lastViews : Option (List View)
  timers : List Int64

namespace RollingViews

def new (horizonsMs : List Int64) (currentKey : String) : RollingViews :=
  ⟨horizonsMs, currentKey, none, none, none, none, []⟩

def schedule (s : RollingViews) (atMs : Int64) : RollingViews :=
  let timers := match s.pendingTimer with
    | some pending => s.timers.erase pending
    | none => s.timers
  { s with timers := timers.insert atMs, pendingTimer := some atMs }

def viewsChanged (previous : Option (List View)) (current : List View) : Bool :=
  match previous with
  | none => true
  | some previous =>
    previous.length ≠ current.length ∨ ¬ (List.zipWith View.sameCounts current previous).all id

def emitChanged (s : RollingViews) (w : DeviceWindows) : RollingViews × List ViewSet :=
  let current := w.views s.currentKey
  ({ s with lastViews := some current },
   if viewsChanged s.lastViews current then [⟨s.currentKey, w.clockMs, current⟩] else [])

def current (s : RollingViews) : DeviceWindows := s.windows.getD (.new s.horizonsMs)

def processElement (s : RollingViews) (record : FlowRecord) (nowMs : Int64) :
    RollingViews × List ViewSet :=
  let w := s.current.add record
  let lastEventWallMs := if s.current.clockMs < w.clockMs then some nowMs else s.lastEventWallMs
  let (s, out) := emitChanged { s with windows := some w, lastEventWallMs } w
  (s.schedule (nowMs + firstTickMs), out)

/-- The clock at the last event plus the silence since then. -/
def silentClock (s : RollingViews) (w : DeviceWindows) (timestamp : Int64) : Int64 :=
  let elapsed := match s.lastEventWallMs with
    | none => 0
    | some lastWall => mathMax 0 (timestamp - lastWall)
  w.latestEventTime + elapsed

/-- The windows that `onTimer` advances. Keyed state on the heap is live: the moved clock stays
in the state even when nothing expired. -/
def ticked (s : RollingViews) (timestamp : Int64) : Option (DeviceWindows × Bool) :=
  s.windows.map fun w => w.advanceTo (s.silentClock w timestamp)

/-- The views are emitted if the advance expired anything. -/
def tickTo (s : RollingViews) (w : DeviceWindows) (changed : Bool) :
    RollingViews × List ViewSet :=
  let s := { s with windows := some w }
  if changed then s.emitChanged w else (s, [])

/-- State is cleared once every horizon is empty; otherwise the next tick is scheduled. -/
def settle (s : RollingViews) (w : DeviceWindows) (timestamp : Int64) : RollingViews :=
  if w.isEmpty then { s with windows := none, lastEventWallMs := none, lastViews := none }
  else s.schedule (timestamp + tickMs)

def onTimer (s : RollingViews) (timestamp : Int64) : RollingViews × List ViewSet :=
  let s := { s with pendingTimer := none }
  match s.ticked timestamp with
  | none => (s, [])
  | some (w, changed) =>
    let (s, out) := s.tickTo w changed
    (s.settle w timestamp, out)

/-- The timer service removes a timer before it calls `onTimer`. -/
def fire (s : RollingViews) (timestamp : Int64) : RollingViews × List ViewSet :=
  { s with timers := s.timers.erase timestamp }.onTimer timestamp

end RollingViews

end PiAgents.Detection
