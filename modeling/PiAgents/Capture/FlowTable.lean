import Mathlib.Data.List.AList
import Mathlib.Data.List.Sort
import PiAgents.Capture.Packet

/-! Micro-flows and the bounded flow table of `lib.rs`. A micro-flow aggregates both
directions of one 5-tuple and is closed when it is idle, when it has been open for the active
timeout, or early when the table is full. Capture times are microseconds in an `i64`, and a
difference of two that does not fit wraps around. -/

namespace PiAgents.Capture

def defaultIdleUs : Int := 1000000
def defaultActiveUs : Int := 1000000
/-- How long a flushed 5-tuple is remembered to mark follow-up events as continuations and
keep their direction. -/
def continuationTtlUs : Int := 120000000
def defaultCapacity : Nat := 65536

theorem default_capacity_pos : 0 < defaultCapacity := by decide

structure FlowKey where
  deviceMac : Mac
  deviceIp : IpAddr
  remoteIp : IpAddr
  devicePort : UInt16
  remotePort : UInt16
  protocol : Protocol
  deriving DecidableEq, Repr

def IpAddr.rank : IpAddr → List Nat
  | .v4 octets => 0 :: octets.toList.map UInt8.toNat
  | .v6 octets => 1 :: octets.toList.map UInt8.toNat

def Protocol.rank : Protocol → List Nat
  | .tcp => [0]
  | .udp => [1]
  | .icmp => [2]
  | .icmpv6 => [3]
  | .other number => [4, number.toNat]

/-- The derived order of `FlowKey` compares the fields in turn; it is the lexicographic order
of this list, since two lists of different lengths differ before the shorter one ends. -/
def FlowKey.rank (key : FlowKey) : List Nat :=
  key.deviceMac.toList.map UInt8.toNat ++ key.deviceIp.rank ++ key.remoteIp.rank ++
    [key.devicePort.toNat, key.remotePort.toNat] ++ key.protocol.rank

def rankLe : List Nat → List Nat → Bool
  | [], _ => true
  | _ :: _, [] => false
  | a :: as, b :: bs => a < b || (a == b && rankLe as bs)

inductive Direction where
  /-- The device initiated the micro-flow. -/
  | outbound
  /-- A remote endpoint initiated it towards the device. -/
  | inbound
  deriving DecidableEq, Repr

def opposite : Direction → Direction
  | .outbound => .inbound
  | .inbound => .outbound

inductive AttemptOutcome where
  | notApplicable
  | established
  | rejected
  | unanswered
  deriving DecidableEq, Repr

structure MicroFlow where
  firstPacketUs : Int
  lastPacketUs : Int
  direction : Direction
  packetsFromDevice : UInt32
  packetsToDevice : UInt32
  bytesFromDevice : UInt64
  bytesToDevice : UInt64
  tcpSyn : UInt32
  tcpSynAck : UInt32
  tcpRst : UInt32
  tcpFin : UInt32
  dnsQuery : Option String
  initiatingSyn : Bool
  established : Bool
  rejected : Bool
  deriving DecidableEq, Repr

structure Observation where
  key : FlowKey
  timestampUs : Int
  fromDevice : Bool
  bytes : UInt64
  tcpFlags : UInt8
  /-- An ICMP unreachable for this 5-tuple, sent by the responder. -/
  rejection : Bool
  dnsQuery : Option String
  deriving DecidableEq, Repr

def hasFlag (flags flag : UInt8) : Bool := flags &&& flag ≠ 0

def Observation.syn (obs : Observation) : Bool := hasFlag obs.tcpFlags tcpSyn
def Observation.ack (obs : Observation) : Bool := hasFlag obs.tcpFlags tcpAck
def Observation.rst (obs : Observation) : Bool := hasFlag obs.tcpFlags tcpRst
def Observation.fin (obs : Observation) : Bool := hasFlag obs.tcpFlags tcpFin

/-- The direction of a flow this packet's sender would have initiated. -/
def Observation.sender (obs : Observation) : Direction :=
  if obs.fromDevice then .outbound else .inbound

/-- The sum wrapped around exactly when it is below an addend. -/
def saturatingAdd32 (a b : UInt32) : UInt32 := if a + b < a then 0xffffffff else a + b
def saturatingAdd64 (a b : UInt64) : UInt64 := if a + b < a then 0xffffffffffffffff else a + b

def initialDirection (obs : Observation) : Option Direction → Direction
  | some direction => direction
  -- A SYN-ACK answers an attempt made by the other side, and so does an ICMP error.
  | none => if (obs.syn && obs.ack) || obs.rejection then opposite obs.sender else obs.sender

def MicroFlow.new (obs : Observation) (knownDirection : Option Direction) : MicroFlow where
  firstPacketUs := obs.timestampUs
  lastPacketUs := obs.timestampUs
  direction := initialDirection obs knownDirection
  packetsFromDevice := 0
  packetsToDevice := 0
  bytesFromDevice := 0
  bytesToDevice := 0
  tcpSyn := 0
  tcpSynAck := 0
  tcpRst := 0
  tcpFin := 0
  dnsQuery := none
  initiatingSyn := false
  established := false
  rejected := false

def MicroFlow.fromInitiator (flow : MicroFlow) (obs : Observation) : Bool :=
  obs.fromDevice == (flow.direction == .outbound)

def MicroFlow.record (flow : MicroFlow) (obs : Observation) : MicroFlow where
  firstPacketUs := min flow.firstPacketUs obs.timestampUs
  lastPacketUs := max flow.lastPacketUs obs.timestampUs
  direction := flow.direction
  packetsFromDevice :=
    if obs.fromDevice then saturatingAdd32 flow.packetsFromDevice 1 else flow.packetsFromDevice
  packetsToDevice :=
    if obs.fromDevice then flow.packetsToDevice else saturatingAdd32 flow.packetsToDevice 1
  bytesFromDevice :=
    if obs.fromDevice then saturatingAdd64 flow.bytesFromDevice obs.bytes else flow.bytesFromDevice
  bytesToDevice :=
    if obs.fromDevice then flow.bytesToDevice else saturatingAdd64 flow.bytesToDevice obs.bytes
  tcpSyn := if obs.syn && !obs.ack then flow.tcpSyn + 1 else flow.tcpSyn
  tcpSynAck := if obs.syn && obs.ack then flow.tcpSynAck + 1 else flow.tcpSynAck
  tcpRst := if obs.rst then flow.tcpRst + 1 else flow.tcpRst
  tcpFin := if obs.fin then flow.tcpFin + 1 else flow.tcpFin
  dnsQuery := if flow.dnsQuery.isNone then obs.dnsQuery else flow.dnsQuery
  initiatingSyn := flow.initiatingSyn || (obs.syn && !obs.ack && flow.fromInitiator obs)
  established := flow.established || (obs.syn && obs.ack && !flow.fromInitiator obs)
  rejected := flow.rejected || (obs.rst && !flow.fromInitiator obs) || obs.rejection

def MicroFlow.attemptOutcome (flow : MicroFlow) (protocol : Protocol) : AttemptOutcome :=
  if flow.established then .established
  else if flow.rejected then .rejected
  else if protocol = .tcp ∧ flow.initiatingSyn then .unanswered
  else .notApplicable

/-- The difference of two `i64` in a release build. -/
def wrappingSub (a b : Int) : Int := (a - b).bmod 18446744073709551616

theorem wrappingSub_exact {a b : Int} (above : -9223372036854775808 ≤ a - b)
    (below : a - b < 9223372036854775808) : wrappingSub a b = a - b :=
  Int.bmod_eq_of_le above below

structure FlowRecord where
  key : FlowKey
  flow : MicroFlow
  attemptOutcome : AttemptOutcome
  /-- An earlier record already reported this 5-tuple. -/
  continuation : Bool
  deriving DecidableEq, Repr

inductive UpsertResult where
  | updated
  | inserted
  /-- The table was full; the flow with the oldest last packet was flushed early. -/
  | evicted (key : FlowKey)
  deriving DecidableEq, Repr

def retain {α : Type} {β : α → Type} [DecidableEq α] (keep : Sigma β → Bool) (map : AList β) :
    AList β :=
  ⟨map.entries.filter keep, map.nodupKeys.sublist List.filter_sublist⟩

abbrev Entries := AList (fun _ : FlowKey => MicroFlow)

/-- Bounded table of open micro-flows. The constructor asserts a positive capacity. -/
structure FlowTable where
  capacity : Nat
  capacity_pos : 0 < capacity
  idleUs : Int
  activeUs : Int
  entries : Entries
  recent : AList (fun _ : FlowKey => Direction × Int)

namespace FlowTable

def withTimeouts (capacity : Nat) (capacity_pos : 0 < capacity) (idleUs activeUs : Int) : FlowTable :=
  { capacity, capacity_pos, idleUs, activeUs, entries := ∅, recent := ∅ }

def new (capacity : Nat) (capacity_pos : 0 < capacity) : FlowTable :=
  withTimeouts capacity capacity_pos defaultIdleUs defaultActiveUs

def len (table : FlowTable) : Nat := table.entries.entries.length

def get (table : FlowTable) (key : FlowKey) : Option MicroFlow := table.entries.lookup key

def due (table : FlowTable) (flow : MicroFlow) (nowUs : Int) : Bool :=
  table.activeUs ≤ wrappingSub nowUs flow.firstPacketUs ∨
    table.idleUs ≤ wrappingSub nowUs flow.lastPacketUs

def close (table : FlowTable) (key : FlowKey) (flow : MicroFlow) : FlowTable × FlowRecord :=
  ({ table with recent := table.recent.insert key (flow.direction, flow.lastPacketUs) },
   { key, flow, attemptOutcome := flow.attemptOutcome key.protocol
     continuation := (table.recent.lookup key).isSome })

/-- Every flush removes the entry and closes its flow. -/
def removeAndClose (table : FlowTable) (key : FlowKey) (flow : MicroFlow) : FlowTable × FlowRecord :=
  close { table with entries := table.entries.erase key } key flow

def evictionOrder (a b : Sigma fun _ : FlowKey => MicroFlow) : Prop :=
  a.2.lastPacketUs < b.2.lastPacketUs ∨
    (a.2.lastPacketUs = b.2.lastPacketUs ∧ rankLe a.1.rank b.1.rank = true)

instance : DecidableRel evictionOrder := fun _ _ => instDecidableOr

def oldest (table : FlowTable) : Option (Sigma fun _ : FlowKey => MicroFlow) :=
  (table.entries.entries.insertionSort evictionOrder).head?

/-- Makes room for one more flow: on a full table the oldest flow is flushed early. -/
def evict (table : FlowTable) : FlowTable × List FlowRecord × Option FlowKey :=
  if table.capacity ≤ table.len then
    match table.oldest with
    | some entry =>
      let (table, record) := table.removeAndClose entry.1 entry.2
      (table, [record], some entry.1)
    | none => (table, [], none)
  else (table, [], none)

def insertNew (table : FlowTable) (obs : Observation) : FlowTable :=
  let knownDirection := (table.recent.lookup obs.key).map Prod.fst
  { table with entries := table.entries.insert obs.key ((MicroFlow.new obs knownDirection).record obs) }

/-- The second half of `upsert`, reached when no flow that may be updated is open. -/
def openNew (table : FlowTable) (obs : Observation) : FlowTable × List FlowRecord × UpsertResult :=
  let (table, out, evicted) := table.evict
  (table.insertNew obs, out, match evicted with | some key => .evicted key | none => .inserted)

/-- Adds one observation. Flows closed as a side effect (a due flow for the same key, or an
evicted one) are returned. -/
def upsert (table : FlowTable) (obs : Observation) : FlowTable × List FlowRecord × UpsertResult :=
  match table.entries.lookup obs.key with
  | some flow =>
    if table.due flow obs.timestampUs then
      let (table, record) := table.removeAndClose obs.key flow
      let (table, out, result) := table.openNew obs
      (table, record :: out, result)
    else
      ({ table with entries := table.entries.insert obs.key (flow.record obs) }, [], .updated)
  | none => table.openNew obs

def drainKeys (table : FlowTable) : List FlowKey → FlowTable × List FlowRecord
  | [] => (table, [])
  | key :: keys =>
    match table.entries.lookup key with
    | some flow =>
      let (table, record) := table.removeAndClose key flow
      let (table, out) := table.drainKeys keys
      (table, record :: out)
    | none => table.drainKeys keys

def flushOrder (a b : Sigma fun _ : FlowKey => MicroFlow) : Prop :=
  a.2.firstPacketUs < b.2.firstPacketUs ∨
    (a.2.firstPacketUs = b.2.firstPacketUs ∧ rankLe a.1.rank b.1.rank = true)

instance : DecidableRel flushOrder := fun _ _ => instDecidableOr

def drain (table : FlowTable) (flows : List (Sigma fun _ : FlowKey => MicroFlow)) :
    FlowTable × List FlowRecord :=
  table.drainKeys ((flows.insertionSort flushOrder).map Sigma.fst)

/-- Flushes every flow that is idle or has been open for the active timeout, oldest first, and
forgets the 5-tuples flushed too long ago. -/
def flushDue (table : FlowTable) (nowUs : Int) : FlowTable × List FlowRecord :=
  let (table, out) := table.drain (table.entries.entries.filter fun entry => table.due entry.2 nowUs)
  let recent := retain (fun entry => wrappingSub nowUs entry.2.2 < continuationTtlUs) table.recent
  ({ table with recent }, out)

/-- Flushes everything, e.g. at the end of an offline replay or shutdown. -/
def flushAll (table : FlowTable) : FlowTable × List FlowRecord :=
  table.drain table.entries.entries

end FlowTable

end PiAgents.Capture
