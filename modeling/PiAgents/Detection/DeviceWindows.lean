import Mathlib.Data.List.AList
import Mathlib.Data.List.DropRight
import PiAgents.Lib.Exact

/-! Rolling views of one device's recent flows, one per horizon. A horizon covers the half-open
interval `(clock - length, clock]`; its aggregates are maintained incrementally. -/

namespace PiAgents.Detection

def mathMax (a b : Int64) : Int64 := if a ≤ b then b else a

theorem mathMax_toInt (a b : Int64) : (mathMax a b).toInt = max a.toInt b.toInt := by
  unfold mathMax
  split
  · next order =>
      rw [Int64.le_iff_toInt_le] at order
      omega
  · next order =>
      rw [Int64.le_iff_toInt_le] at order
      omega

theorem le_mathMax_left (a b : Int64) : a ≤ mathMax a b := by
  rw [Int64.le_iff_toInt_le, mathMax_toInt]
  exact le_max_left _ _

theorem le_mathMax_right (a b : Int64) : b ≤ mathMax a b := by
  rw [Int64.le_iff_toInt_le, mathMax_toInt]
  exact le_max_right _ _

structure FlowRecord where
  eventId : String
  deviceKey : String
  eventTimeMs : Int64
  ingestTimeMs : Int64
  remoteIp : String
  remotePort : Int32
  protocol : Int32
  attemptOutcome : Int32
  bytesFromDevice : Int64
  bytesToDevice : Int64
  deriving DecidableEq, Repr

/-- AttemptOutcome numbers that count as failed attempts. -/
def outcomeRejected : Int32 := 3
def outcomeUnanswered : Int32 := 4

structure Contribution where
  eventTimeMs : Int64
  remoteIp : String
  target : String
  bytes : Int64
  failed : Bool
  eventId : String
  ingestTimeMs : Int64
  deriving DecidableEq, Repr

def Contribution.of (r : FlowRecord) : Contribution where
  eventTimeMs := r.eventTimeMs
  remoteIp := r.remoteIp
  target := toString r.protocol ++ "/" ++ r.remoteIp ++ "/" ++ toString r.remotePort
  bytes := r.bytesFromDevice + r.bytesToDevice
  failed := r.attemptOutcome = outcomeRejected ∨ r.attemptOutcome = outcomeUnanswered
  eventId := r.eventId
  ingestTimeMs := r.ingestTimeMs

/-- Latest outcome of one (protocol, remote IP, remote port) target. A reference count never
exceeds the size of a deque, so it does not wrap. -/
structure Target where
  refs : Nat
  latestTimeMs : Int64
  latestFailed : Bool
  deriving DecidableEq, Repr

def Target.new : Target := ⟨0, Int64.minValue, false⟩

def sampleSize : Nat := 20

structure View where
  deviceKey : String
  horizonSeconds : Int32
  windowEndMs : Int64
  flows : Int32
  bytes : Int64
  distinctRemoteIps : Int32
  distinctTargets : Int32
  /-- Distinct targets whose latest attempt was rejected or unanswered. -/
  failedTargets : Int32
  latestEventId : String
  latestIngestTimeMs : Int64
  /-- IDs of the most recent failed attempts, newest first. -/
  sampleEventIds : List String
  deriving DecidableEq, Repr

/-- The aggregates agree; the window ends may differ. -/
def View.sameCounts (v o : View) : Bool :=
  v.flows == o.flows && v.bytes == o.bytes && v.distinctRemoteIps == o.distinctRemoteIps &&
    v.distinctTargets == o.distinctTargets && v.failedTargets == o.failedTargets

structure Horizon where
  lengthMs : Int64
  contributions : List Contribution
  remoteIps : AList (fun _ : String => Nat)
  targets : AList (fun _ : String => Target)
  bytes : Int64
  failedTargets : Int32

namespace Horizon

def new (lengthMs : Int64) : Horizon := ⟨lengthMs, [], ∅, ∅, 0, 0⟩

/-- Contributions arrive almost in order: the newer ones are polled from the tail and put back. -/
def insertFromTail (contributions : List Contribution) (c : Contribution) : List Contribution :=
  match contributions.getLast? with
  | none => contributions ++ [c]
  | some last =>
    if last.eventTimeMs ≤ c.eventTimeMs then contributions ++ [c]
    else
      contributions.rdropWhile (fun b => c.eventTimeMs < b.eventTimeMs) ++
        c :: contributions.rtakeWhile (fun b => c.eventTimeMs < b.eventTimeMs)

def flag (failed : Bool) : Int32 := if failed then 1 else 0

def add (h : Horizon) (c : Contribution) : Horizon :=
  let known := (h.targets.lookup c.target).getD .new
  let t := { known with refs := known.refs + 1 }
  let latest := t.latestTimeMs ≤ c.eventTimeMs
  let wasFailed := 1 < t.refs && t.latestFailed
  { lengthMs := h.lengthMs
    contributions := insertFromTail h.contributions c
    remoteIps := h.remoteIps.insert c.remoteIp ((h.remoteIps.lookup c.remoteIp).getD 0 + 1)
    targets := h.targets.insert c.target
      (if latest then { t with latestTimeMs := c.eventTimeMs, latestFailed := c.failed } else t)
    bytes := h.bytes + c.bytes
    failedTargets :=
      if latest then h.failedTargets + (flag c.failed - flag wasFailed) else h.failedTargets }

/-- `remoteIps.computeIfPresent(c.remoteIp, (k, n) -> n == 1 ? null : n - 1)` -/
def releaseIp (remoteIps : AList (fun _ : String => Nat)) (remoteIp : String) :
    AList (fun _ : String => Nat) :=
  match remoteIps.lookup remoteIp with
  | none => remoteIps
  | some n => if n = 1 then remoteIps.erase remoteIp else remoteIps.insert remoteIp (n - 1)

/-- One round of the loop in `expire`: the first contribution, `c`, leaves `rest` behind. -/
def pollFirst (h : Horizon) (c : Contribution) (rest : List Contribution) : Horizon :=
  let polled := { h with
    contributions := rest
    bytes := h.bytes - c.bytes
    remoteIps := releaseIp h.remoteIps c.remoteIp }
  match h.targets.lookup c.target with
  | none => polled
  | some t =>
    -- The latest contribution of a target expires last (time order).
    if t.refs = 1 then
      { polled with
        targets := h.targets.erase c.target
        failedTargets := if t.latestFailed then h.failedTargets - 1 else h.failedTargets }
    else { polled with targets := h.targets.insert c.target { t with refs := t.refs - 1 } }

def expireLoop (cutoff : Int64) (h : Horizon) : List Contribution → Horizon × Bool
  | [] => (h, false)
  | c :: rest =>
    if c.eventTimeMs ≤ cutoff then ((expireLoop cutoff (h.pollFirst c rest) rest).1, true)
    else (h, false)

/-- Removes contributions at or before `clock - length`; true if any. -/
def expire (h : Horizon) (clockMs : Int64) : Horizon × Bool :=
  h.expireLoop (clockMs - h.lengthMs) h.contributions

/-- The iteration from the newest contribution that collects the sample. -/
def sampleLoop : List Contribution → List String → List String
  | [], sample => sample
  | c :: older, sample =>
    if sample.length < sampleSize then
      sampleLoop older (if c.failed then sample ++ [c.eventId] else sample)
    else sample

def view (h : Horizon) (deviceKey : String) (clockMs : Int64) : View where
  deviceKey := deviceKey
  horizonSeconds := (h.lengthMs / 1000).toInt32
  windowEndMs := clockMs
  flows := Int32.ofNat h.contributions.length
  bytes := h.bytes
  distinctRemoteIps := Int32.ofNat h.remoteIps.keys.length
  distinctTargets := Int32.ofNat h.targets.keys.length
  failedTargets := h.failedTargets
  latestEventId := (h.contributions.getLast?.map Contribution.eventId).getD ""
  latestIngestTimeMs := (h.contributions.getLast?.map Contribution.ingestTimeMs).getD 0
  sampleEventIds := sampleLoop h.contributions.reverse []

end Horizon

structure DeviceWindows where
  horizons : List Horizon
  clockMs : Int64

namespace DeviceWindows

def new (horizonLengthsMs : List Int64) : DeviceWindows :=
  ⟨horizonLengthsMs.map Horizon.new, Int64.minValue⟩

def isEmpty (w : DeviceWindows) : Bool := w.horizons.all fun h => h.contributions.isEmpty

/-- Moves the clock forward (never back) and expires old contributions. -/
def advanceTo (w : DeviceWindows) (newClockMs : Int64) : DeviceWindows × Bool :=
  if newClockMs ≤ w.clockMs then (w, false)
  else
    ({ horizons := w.horizons.map fun h => (h.expire newClockMs).1, clockMs := newClockMs },
     w.horizons.any fun h => (h.expire newClockMs).2)

/-- Adds a flow. It joins every horizon whose window still covers its event time; the clock moves
forward to the event time if it is newer. -/
def add (w : DeviceWindows) (record : FlowRecord) : DeviceWindows :=
  let c := Contribution.of record
  let w := (w.advanceTo (mathMax w.clockMs c.eventTimeMs)).1
  { w with horizons := w.horizons.map fun h =>
      if w.clockMs - h.lengthMs < c.eventTimeMs then h.add c else h }

def views (w : DeviceWindows) (deviceKey : String) : List View :=
  w.horizons.map fun h => h.view deviceKey w.clockMs

end DeviceWindows

end PiAgents.Detection
