import PiAgents.Lib.Protobuf
import PiAgents.Capture.FlowTable

/-! The encoders of `proto.rs`, and the texts of addresses that go into them. -/

namespace PiAgents.Capture

open Protobuf (stringBytes)

/-- `{:02x}` -/
def hexByte (b : UInt8) : String :=
  String.ofList [Nat.digitChar (b.toNat / 16), Nat.digitChar (b.toNat % 16)]

def formatMac (m : Mac) : String := ":".intercalate (m.toList.map hexByte)

def ipv4Text (octets : List UInt8) : String :=
  ".".intercalate (octets.map fun octet => toString octet.toNat)

def segmentsOf : List UInt8 → List Nat
  | high :: low :: rest => (256 * high.toNat + low.toNat) :: segmentsOf rest
  | _ => []

structure Span where
  start : Nat
  len : Nat

/-- The first longest run of zero segments. -/
def zeroSpan : List Nat → Nat → Span → Span → Span
  | [], _, longest, _ => longest
  | segment :: rest, i, longest, current =>
      if segment = 0 then
        let grown : Span := ⟨if current.len = 0 then i else current.start, current.len + 1⟩
        zeroSpan rest (i + 1) (if longest.len < grown.len then grown else longest) grown
      else zeroSpan rest (i + 1) longest ⟨0, 0⟩

def fmtSubslice (segments : List Nat) : String :=
  ":".intercalate (segments.map fun segment => String.ofList (Nat.toDigits 16 segment))

def ipv6Text (octets : List UInt8) : String :=
  match segmentsOf octets with
  | [0, 0, 0, 0, 0, 0xffff, _, _] => "::ffff:" ++ ipv4Text (octets.drop 12)
  | segments =>
      let zeroes := zeroSpan segments 0 ⟨0, 0⟩ ⟨0, 0⟩
      if 1 < zeroes.len then
        fmtSubslice (segments.take zeroes.start) ++ "::" ++
          fmtSubslice (segments.drop (zeroes.start + zeroes.len))
      else fmtSubslice segments

/-- `IpAddr::to_string` -/
def IpAddr.text : IpAddr → String
  | .v4 octets => ipv4Text octets.toList
  | .v6 octets => ipv6Text octets.toList

example : (IpAddr.v6 #v[0x20, 0x01, 0x0d, 0xb8, 0, 0, 0, 0, 0, 1, 0, 0, 0, 0, 0, 1]).text =
    "2001:db8::1:0:0:1" := by decide

def schemaVersion : String := "v2"

structure Envelope where
  eventId : String
  gatewayId : String
  deviceKey : String
  eventTimeUnixMillis : Int64
  ingestTimeUnixMillis : Int64

structure Writer where
  buf : List UInt8

namespace Writer

def empty : Writer := ⟨[]⟩

def push (w : Writer) (byte : UInt8) : Writer := ⟨w.buf ++ [byte]⟩

def extend (w : Writer) (bytes : List UInt8) : Writer := ⟨w.buf ++ bytes⟩

/-- Ten rounds shift out all bits of a `u64`. -/
def varintLoop : Nat → Writer → Nat → Writer
  | 0, w, _ => w
  | rounds + 1, w, v =>
      if 0x80 ≤ v then varintLoop rounds (w.push (UInt8.ofNat v ||| 0x80)) (v >>> 7)
      else w.push (UInt8.ofNat v)

def varint (w : Writer) (v : UInt64) : Writer := varintLoop 10 w v.toNat

def tag (w : Writer) (field : UInt32) (wireType : UInt8) : Writer :=
  w.varint (field.toUInt64 <<< 3 ||| wireType.toUInt64)

def uint (w : Writer) (field : UInt32) (v : UInt64) : Writer :=
  if v ≠ 0 then (w.tag field 0).varint v else w

/-- `int64` uses plain two's-complement varints (not zigzag). -/
def int (w : Writer) (field : UInt32) (v : Int64) : Writer := w.uint field v.toUInt64

def boolean (w : Writer) (field : UInt32) (v : Bool) : Writer :=
  w.uint field (if v then 1 else 0)

def bytes (w : Writer) (field : UInt32) (v : List UInt8) : Writer :=
  if v ≠ [] then ((w.tag field 2).varint (UInt64.ofNat v.length)).extend v else w

def string (w : Writer) (field : UInt32) (v : String) : Writer := w.bytes field (stringBytes v)

/-- Embedded messages are written even when empty. -/
def message (w : Writer) (field : UInt32) (v : List UInt8) : Writer :=
  ((w.tag field 2).varint (UInt64.ofNat v.length)).extend v

end Writer

def encodeEnvelope (e : Envelope) : List UInt8 :=
  let w := Writer.empty
  let w := w.string 1 e.eventId
  let w := w.string 2 schemaVersion
  let w := w.string 3 e.gatewayId
  let w := w.string 4 e.deviceKey
  let w := w.int 5 e.eventTimeUnixMillis
  let w := w.int 6 e.ingestTimeUnixMillis
  w.buf

inductive HealthKind where
  | heartbeat
  | spoolLoss
  | unattributed
  | flowTableEviction
  deriving DecidableEq, Repr

/-- `kind as u64` -/
def HealthKind.number : HealthKind → UInt64
  | .heartbeat => 1
  | .spoolLoss => 2
  | .unattributed => 3
  | .flowTableEviction => 5

structure HealthEvent where
  envelope : Envelope
  component : String
  kind : HealthKind
  count : UInt64
  firstSequence : UInt64
  lastSequence : UInt64
  firstEventTimeUnixMillis : Int64
  lastEventTimeUnixMillis : Int64
  detail : String

def protocolNumber : Protocol → UInt64
  | .tcp => 1
  | .udp => 2
  | .icmp => 3
  | .icmpv6 => 4
  | .other _ => 15

def directionNumber : Direction → UInt64
  | .outbound => 1
  | .inbound => 2

def outcomeNumber : AttemptOutcome → UInt64
  | .notApplicable => 1
  | .established => 2
  | .rejected => 3
  | .unanswered => 4

def deviceKey (gatewayId : String) (record : FlowRecord) : String :=
  gatewayId ++ ":" ++ formatMac record.key.deviceMac

def flowEventId (gatewayId : String) (captureSequence : UInt64) : String :=
  gatewayId ++ "/" ++ toString captureSequence.toNat

def flowEnvelope (gatewayId : String) (captureSequence : UInt64) (ingestTimeUnixMillis : Int64)
    (record : FlowRecord) : Envelope where
  eventId := flowEventId gatewayId captureSequence
  gatewayId := gatewayId
  deviceKey := deviceKey gatewayId record
  eventTimeUnixMillis := Int64.ofInt (record.flow.lastPacketUs / 1000)
  ingestTimeUnixMillis := ingestTimeUnixMillis

/-- The ends of the flow as they stand on the wire, the source first. -/
structure Ends where
  srcIp : IpAddr
  dstIp : IpAddr
  srcPort : UInt16
  dstPort : UInt16

def FlowRecord.ends (record : FlowRecord) : Ends :=
  let k := record.key
  match record.flow.direction with
  | .outbound => ⟨k.deviceIp, k.remoteIp, k.devicePort, k.remotePort⟩
  | .inbound => ⟨k.remoteIp, k.deviceIp, k.remotePort, k.devicePort⟩

/-- Encodes a flushed micro-flow. The envelope's event time is the last packet's time. -/
def encodeFlowEvent (gatewayId : String) (captureSequence : UInt64) (ingestTimeUnixMillis : Int64)
    (record : FlowRecord) : List UInt8 :=
  let f := record.flow
  let k := record.key
  let ends := record.ends
  let w := Writer.empty
  let w := w.message 1
    (encodeEnvelope (flowEnvelope gatewayId captureSequence ingestTimeUnixMillis record))
  let w := w.uint 2 captureSequence
  let w := w.string 3 (formatMac k.deviceMac)
  let w := w.string 4 ends.srcIp.text
  let w := w.string 5 ends.dstIp.text
  let w := w.uint 6 ends.srcPort.toUInt64
  let w := w.uint 7 ends.dstPort.toUInt64
  let w := w.uint 8 (protocolNumber k.protocol)
  let w := w.uint 9 (directionNumber f.direction)
  let w := w.int 10 (Int64.ofInt f.firstPacketUs)
  let w := w.int 11 (Int64.ofInt f.lastPacketUs)
  let w := w.uint 12 f.packetsFromDevice.toUInt64
  let w := w.uint 13 f.packetsToDevice.toUInt64
  let w := w.uint 14 f.bytesFromDevice
  let w := w.uint 15 f.bytesToDevice
  let w := w.uint 16 f.tcpSyn.toUInt64
  let w := w.uint 17 f.tcpSynAck.toUInt64
  let w := w.uint 18 f.tcpRst.toUInt64
  let w := w.uint 19 f.tcpFin.toUInt64
  let w := w.uint 20 (outcomeNumber record.attemptOutcome)
  let w := w.string 21 (f.dnsQuery.getD "")
  let w := w.boolean 22 record.continuation
  w.buf

def encodeHealthEvent (h : HealthEvent) : List UInt8 :=
  let w := Writer.empty
  let w := w.message 1 (encodeEnvelope h.envelope)
  let w := w.string 2 h.component
  let w := w.uint 3 h.kind.number
  let w := w.uint 4 h.count
  let w := w.uint 5 h.firstSequence
  let w := w.uint 6 h.lastSequence
  let w := w.int 7 h.firstEventTimeUnixMillis
  let w := w.int 8 h.lastEventTimeUnixMillis
  let w := w.string 9 h.detail
  w.buf

end PiAgents.Capture
