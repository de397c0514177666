import PiAgents.Capture.Proto
import PiAgents.Spooling.Custody

/-! The forwarder of `forward.rs`: events go through the spool to a publisher, which takes them or
is full, and reports later what it has delivered. -/

namespace PiAgents.Spooling

open Protobuf (stringBytes)
open Capture (HealthKind HealthEvent FlowRecord deviceKey encodeFlowEvent encodeHealthEvent)

def flowsTopic : String := "traffic.flows.v2"
def healthTopic : String := "traffic.health.v2"

def topicName : Topic → String
  | .flows => flowsTopic
  | .health => healthTopic

inductive SendOutcome where
  /-- Handed to the client; a delivery report follows. -/
  | queued
  /-- The client cannot take more now. -/
  | full
  deriving DecidableEq, Repr

structure Send where
  topic : String
  entry : Entry
  outcome : SendOutcome
  deriving DecidableEq

structure ForwardStats where
  sent : Nat
  delivered : Nat
  failedDeliveries : Nat
  lost : Nat
  deriving DecidableEq, Repr

structure Forwarder where
  gatewayId : String
  disk : Disk
  spool : Spool
  cursor : Cursor
  stats : ForwardStats
  /-- All spool loss since start. -/
  cumulativeLoss : Option Loss

def healthEvent (gatewayId component : String) (kind : HealthKind) (count : Nat)
    (sequences : Nat × Nat) (eventTimesMs : Int64 × Int64) (detail : String) (nowMs : Int64) :
    Spool.Event where
  topic := .health
  key := stringBytes gatewayId
  eventTimeMs := eventTimesMs.2
  payload seq := encodeHealthEvent {
    envelope := ⟨gatewayId ++ "/" ++ toString seq, gatewayId, "", eventTimesMs.2, nowMs⟩
    component
    kind
    count := UInt64.ofNat count
    firstSequence := UInt64.ofNat sequences.1
    lastSequence := UInt64.ofNat sequences.2
    firstEventTimeUnixMillis := eventTimesMs.1
    lastEventTimeUnixMillis := eventTimesMs.2
    detail }

def flowEvent (gatewayId : String) (record : FlowRecord) (nowMs : Int64) : Spool.Event where
  topic := .flows
  key := stringBytes (deviceKey gatewayId record)
  eventTimeMs := Int64.ofInt (record.flow.lastPacketUs / 1000)
  payload seq := encodeFlowEvent gatewayId (UInt64.ofNat seq) nowMs record

def lossReport (gatewayId : String) (total : Loss) (nowMs : Int64) : Spool.Event :=
  healthEvent gatewayId "sensor-spool" .spoolLoss total.count (total.firstSeq, total.lastSeq)
    (total.firstEventTimeMs, total.lastEventTimeMs)
    "spool full: oldest unacknowledged events dropped (totals since sensor start)" nowMs

namespace Loss

def merge (total loss : Loss) : Loss where
  count := total.count + loss.count
  firstSeq := min total.firstSeq loss.firstSeq
  lastSeq := max total.lastSeq loss.lastSeq
  firstEventTimeMs := min total.firstEventTimeMs loss.firstEventTimeMs
  lastEventTimeMs := max total.lastEventTimeMs loss.lastEventTimeMs

def addTo (total : Option Loss) (loss : Loss) : Loss :=
  match total with
  | none => loss
  | some total => total.merge loss

/-- A loss caused by the report itself: the count and the last number are added. -/
def nest (total nested : Loss) : Loss :=
  { total with count := total.count + nested.count, lastSeq := max total.lastSeq nested.lastSeq }

end Loss

namespace Forwarder

def new (gatewayId : String) (disk : Disk) (spool : Spool) : Forwarder :=
  ⟨gatewayId, disk, spool, spool.rewind, ⟨0, 0, 0, 0⟩, none⟩

/-- None when the spool has no sequence numbers left. -/
def append (f : Forwarder) (event : Spool.Event) : Option (Forwarder × Nat × Option Loss) :=
  (f.spool.append event).2.map fun answer =>
    ({ f with disk := f.disk.applyAll (f.spool.append event).1, spool := answer.1 }, answer.2)

def count (f : Forwarder) (loss : Loss) : Forwarder :=
  { f with
    stats := { f.stats with lost := f.stats.lost + loss.count }
    cumulativeLoss := some (Loss.addTo f.cumulativeLoss loss) }

/-- The report can itself drop segments; that loss is counted and not reported. -/
def nested (f : Forwarder) : Option Loss → Forwarder
  | none => f
  | some loss =>
      { f with
        stats := { f.stats with lost := f.stats.lost + loss.count }
        cumulativeLoss := f.cumulativeLoss.map fun total => total.nest loss }

theorem nested_disk (f : Forwarder) (loss : Option Loss) : (f.nested loss).disk = f.disk := by
  cases loss with
  | none => rfl
  | some loss => rfl

theorem nested_spool (f : Forwarder) (loss : Option Loss) : (f.nested loss).spool = f.spool := by
  cases loss with
  | none => rfl
  | some loss => rfl

theorem nested_cursor (f : Forwarder) (loss : Option Loss) :
    (f.nested loss).cursor = f.cursor := by
  cases loss with
  | none => rfl
  | some loss => rfl

def reportLoss (f : Forwarder) (loss : Loss) (nowMs : Int64) : Option Forwarder :=
  let report := lossReport f.gatewayId (Loss.addTo f.cumulativeLoss loss) nowMs
  ((f.count loss).append report).map fun appended => appended.1.nested appended.2.2

def submit (f : Forwarder) (event : Spool.Event) (nowMs : Int64) : Option (Forwarder × Nat) :=
  (f.append event).bind fun appended =>
    match appended.2.2 with
    | none => some (appended.1, appended.2.1)
    | some loss => (appended.1.reportLoss loss nowMs).map fun after => (after, appended.2.1)

def submitFlow (f : Forwarder) (record : FlowRecord) (nowMs : Int64) : Option (Forwarder × Nat) :=
  f.submit (flowEvent f.gatewayId record nowMs) nowMs

def submitHealth (f : Forwarder) (component : String) (kind : HealthKind) (count : Nat)
    (sequences : Nat × Nat) (eventTimesMs : Int64 × Int64) (detail : String) (nowMs : Int64) :
    Option (Forwarder × Nat) :=
  f.submit (healthEvent f.gatewayId component kind count sequences eventTimesMs detail nowMs) nowMs

def report (f : Forwarder) (report : Nat × Bool) : Forwarder :=
  if report.2 then
    { f with
      disk := f.disk.applyAll (f.spool.ack report.1).1
      spool := (f.spool.ack report.1).2
      stats := { f.stats with delivered := f.stats.delivered + 1 } }
  else { f with stats := { f.stats with failedDeliveries := f.stats.failedDeliveries + 1 } }

/-- After a failed delivery sending goes on from the oldest entry not acknowledged. -/
def processReports (f : Forwarder) (reports : List (Nat × Bool)) : Forwarder :=
  let reported := reports.foldl report f
  if reports.any fun r => !r.2 then { reported with cursor := reported.spool.rewind } else reported

/-- Offers a batch in order. The position is that of the entry for which the publisher was full. -/
def offer (answers : Nat → SendOutcome) : Nat → List (Cursor × Entry) → List Send × Option Cursor
  | _, [] => ([], none)
  | made, (position, entry) :: rest =>
      match answers made with
      | .queued =>
          let later := offer answers (made + 1) rest
          (⟨topicName entry.topic, entry, .queued⟩ :: later.1, later.2)
      | .full => ([⟨topicName entry.topic, entry, .full⟩], some position)

def queued (sends : List Send) : List Nat :=
  (sends.filter fun send => send.outcome = .queued).map (·.entry.seq)

def send (f : Forwarder) (sends : List Send) (cursor : Cursor) : Forwarder :=
  { f with
    cursor
    stats := { f.stats with sent := f.stats.sent + (queued sends).length } }

/-- Sends what is read in batches of up to 256 until the budget is used up, nothing is left or the
publisher is full. A round with a batch takes from the budget, which has no more rounds in it. -/
def sendLoop (answers : Nat → SendOutcome) : Nat → Nat → Nat → Forwarder → Forwarder × List Send
  | 0, _, _, f => (f, [])
  | rounds + 1, made, remaining, f =>
      if remaining = 0 then (f, [])
      else
        let batch := f.spool.read f.disk f.cursor (min remaining 256)
        if batch.1.isEmpty then ({ f with cursor := batch.2 }, [])
        else
          let offered := offer answers made batch.1
          match offered.2 with
          | some position => (f.send offered.1 position, offered.1)
          | none =>
              let later := sendLoop answers rounds (made + batch.1.length)
                (remaining - batch.1.length) (f.send offered.1 batch.2)
              (later.1, offered.1 ++ later.2)

/-- `answers` are those of the publisher to the sends of this call, in order. -/
def pump (f : Forwarder) (budget : Nat) (reports : List (Nat × Bool))
    (answers : Nat → SendOutcome) : Forwarder × List Send :=
  sendLoop answers budget 0 budget (f.processReports reports)

def sync (f : Forwarder) : Forwarder := { f with disk := f.disk.applyAll f.spool.sync }

end Forwarder

end PiAgents.Spooling
