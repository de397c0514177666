import PiAgents.Capture.Attribution
import PiAgents.Capture.FlowTable

/-! `Sensor`: frames in, attributed micro-flow records out. -/

namespace PiAgents.Capture

structure SensorStats where
  frames : Nat
  nonIp : Nat
  malformed : Nat
  unattributed : Nat
  firstUnattributedUs : Option Int
  lastUnattributedUs : Option Int
  evictions : Nat
  flows : Nat
  deriving DecidableEq, Repr

def SensorStats.zero : SensorStats := ⟨0, 0, 0, 0, none, none, 0, 0⟩

structure Sensor where
  clients : Clients
  table : FlowTable
  stats : SensorStats

def Sensor.new (clients : Clients) (table : FlowTable) : Sensor := ⟨clients, table, .zero⟩

/-- An ICMP unreachable is evidence about the flow it quotes, not a flow of its own; the quoted
packet travelled the opposite way. The result is the tuple, the rejection flag and whether the
device is the tuple's source. -/
def ParsedPacket.evidence (packet : ParsedPacket) (fromDevice : Bool) : FiveTuple × Bool × Bool :=
  match packet.icmp with
  | some (.unreachable quoted) => (quoted, true, !fromDevice)
  | _ => (packet.tuple, false, fromDevice)

def orientedKey (deviceMac : Mac) (tuple : FiveTuple) (deviceIsSource : Bool) : FlowKey :=
  if deviceIsSource then
    { deviceMac, deviceIp := tuple.srcIp, remoteIp := tuple.dstIp
      devicePort := tuple.srcPort, remotePort := tuple.dstPort, protocol := tuple.protocol }
  else
    { deviceMac, deviceIp := tuple.dstIp, remoteIp := tuple.srcIp
      devicePort := tuple.dstPort, remotePort := tuple.srcPort, protocol := tuple.protocol }

/-- The observation `process_frame` feeds to the table for an attributed packet. -/
def ParsedPacket.observation (packet : ParsedPacket) (deviceMac : Mac) (fromDevice : Bool)
    (timestampUs : Int) : Observation :=
  let (tuple, rejection, deviceIsSource) := packet.evidence fromDevice
  { key := orientedKey deviceMac tuple deviceIsSource
    timestampUs, fromDevice, rejection
    bytes := packet.wireLen.toUInt64
    tcpFlags := packet.tcpFlags
    dnsQuery := packet.dnsQuery.filter fun _ => fromDevice }

/-- The part of `process_frame` before the table: what the attribution makes of a packet. -/
def Clients.observe (clients : Clients) (packet : ParsedPacket) (timestampUs : Int) :
    Option Observation :=
  match clients.attribute packet.srcMac packet.dstMac with
  | .fromDevice mac => some (packet.observation mac true timestampUs)
  | .toDevice mac => some (packet.observation mac false timestampUs)
  | .unattributed => none

namespace Sensor

def feed (sensor : Sensor) (obs : Observation) : Sensor × List FlowRecord :=
  let (table, out, result) := sensor.table.upsert obs
  let evictions := match result with
    | .evicted _ => sensor.stats.evictions + 1
    | _ => sensor.stats.evictions
  ({ sensor with table, stats := { sensor.stats with evictions, flows := sensor.stats.flows + out.length } },
   out)

/-- A panic of the parser is a panic of `process_frame`. -/
def processFrame (sensor : Sensor) (timestampUs : Int) (data : Bytes) (wireLen : UInt32) :
    Except Unit (Sensor × List FlowRecord) :=
  let sensor := { sensor with stats := { sensor.stats with frames := sensor.stats.frames + 1 } }
  match parseEthernet data wireLen with
  | .ok packet =>
    match sensor.clients.observe packet timestampUs with
    | some obs => .ok (sensor.feed obs)
    | none =>
      .ok ({ sensor with stats := { sensor.stats with
              unattributed := sensor.stats.unattributed + 1
              firstUnattributedUs := some (sensor.stats.firstUnattributedUs.getD timestampUs)
              lastUnattributedUs := some timestampUs } }, [])
  | .error (.err .notIp) =>
    .ok ({ sensor with stats := { sensor.stats with nonIp := sensor.stats.nonIp + 1 } }, [])
  | .error (.err _) =>
    .ok ({ sensor with stats := { sensor.stats with malformed := sensor.stats.malformed + 1 } }, [])
  | .error .panic => .error ()

def flushDue (sensor : Sensor) (nowUs : Int) : Sensor × List FlowRecord :=
  let (table, out) := sensor.table.flushDue nowUs
  ({ sensor with table, stats := { sensor.stats with flows := sensor.stats.flows + out.length } }, out)

def flushAll (sensor : Sensor) : Sensor × List FlowRecord :=
  let (table, out) := sensor.table.flushAll
  ({ sensor with table, stats := { sensor.stats with flows := sensor.stats.flows + out.length } }, out)

end Sensor

end PiAgents.Capture
