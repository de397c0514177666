import PiAgents.Lib.Protobuf
import PiAgents.Detection.DeviceWindows

/-! From the bytes of a message to a flow record: the generated `FlowEvent` parser, the identity
check, and the fields that the job takes over. -/

namespace PiAgents.Detection

open Protobuf

/-- A `long` or an `int` of a varint. -/
def toLong (n : Nat) : Int64 := (UInt64.ofNat n).toInt64

def toInt (n : Nat) : Int32 := (UInt32.ofNat n).toInt32

structure Envelope where
  eventId : String
  schemaVersion : String
  gatewayId : String
  deviceKey : String
  eventTimeUnixMillis : Int64
  ingestTimeUnixMillis : Int64
  traceId : String

def Envelope.default : Envelope := ⟨"", "", "", "", 0, 0, ""⟩

/-- Unknown fields, and known ones with another wire type, are passed over. -/
def Envelope.setField (e : Envelope) (field : Field) : Option Envelope :=
  match field.number, field.value with
  | 1, .delimited bytes => (parseString bytes).map fun s => { e with eventId := s }
  | 2, .delimited bytes => (parseString bytes).map fun s => { e with schemaVersion := s }
  | 3, .delimited bytes => (parseString bytes).map fun s => { e with gatewayId := s }
  | 4, .delimited bytes => (parseString bytes).map fun s => { e with deviceKey := s }
  | 5, .varint n => some { e with eventTimeUnixMillis := toLong n }
  | 6, .varint n => some { e with ingestTimeUnixMillis := toLong n }
  | 7, .delimited bytes => (parseString bytes).map fun s => { e with traceId := s }
  | _, _ => some e

def Envelope.mergeFrom (e : Envelope) (bytes : List UInt8) : Option Envelope := do
  let fields ← parseFields bytes
  fields.foldlM Envelope.setField e

structure FlowEvent where
  envelope : Option Envelope
  captureSequence : Int64
  deviceMac : String
  srcIp : String
  dstIp : String
  srcPort : Int32
  dstPort : Int32
  protocol : Int32
  direction : Int32
  firstPacketTimeUnixMicros : Int64
  lastPacketTimeUnixMicros : Int64
  packetsFromDevice : Int32
  packetsToDevice : Int32
  bytesFromDevice : Int64
  bytesToDevice : Int64
  tcpSyn : Int32
  tcpSynAck : Int32
  tcpRst : Int32
  tcpFin : Int32
  attemptOutcome : Int32
  dnsQuery : String
  continuation : Bool

namespace FlowEvent

def default : FlowEvent :=
  ⟨none, 0, "", "", "", 0, 0, 0, 0, 0, 0, 0, 0, 0, 0, 0, 0, 0, 0, 0, "", false⟩

def setField (e : FlowEvent) (field : Field) : Option FlowEvent :=
  match field.number, field.value with
  | 1, .delimited bytes =>
      ((e.envelope.getD .default).mergeFrom bytes).map fun m => { e with envelope := some m }
  | 2, .varint n => some { e with captureSequence := toLong n }
  | 3, .delimited bytes => (parseString bytes).map fun s => { e with deviceMac := s }
  | 4, .delimited bytes => (parseString bytes).map fun s => { e with srcIp := s }
  | 5, .delimited bytes => (parseString bytes).map fun s => { e with dstIp := s }
  | 6, .varint n => some { e with srcPort := toInt n }
  | 7, .varint n => some { e with dstPort := toInt n }
  | 8, .varint n => some { e with protocol := toInt n }
  | 9, .varint n => some { e with direction := toInt n }
  | 10, .varint n => some { e with firstPacketTimeUnixMicros := toLong n }
  | 11, .varint n => some { e with lastPacketTimeUnixMicros := toLong n }
  | 12, .varint n => some { e with packetsFromDevice := toInt n }
  | 13, .varint n => some { e with packetsToDevice := toInt n }
  | 14, .varint n => some { e with bytesFromDevice := toLong n }
  | 15, .varint n => some { e with bytesToDevice := toLong n }
  | 16, .varint n => some { e with tcpSyn := toInt n }
  | 17, .varint n => some { e with tcpSynAck := toInt n }
  | 18, .varint n => some { e with tcpRst := toInt n }
  | 19, .varint n => some { e with tcpFin := toInt n }
  | 20, .varint n => some { e with attemptOutcome := toInt n }
  | 21, .delimited bytes => (parseString bytes).map fun s => { e with dnsQuery := s }
  | 22, .varint n => some { e with continuation := n ≠ 0 }
  | _, _ => some e

def parseFrom (message : List UInt8) : Option FlowEvent := do
  let fields ← parseFields message
  fields.foldlM setField default

end FlowEvent

/-- A flow record with what only the deserializer and the checks before the windows use. -/
structure DeserializedFlow extends FlowRecord where
  captureSequence : Int64
  direction : Int32
  continuation : Bool
  /-- Set when the bytes are not a usable `FlowEvent`. -/
  malformedReason : Option String
  raw : List UInt8

namespace DeserializedFlow

def fromEvent (event : FlowEvent) (raw : List UInt8) : DeserializedFlow :=
  let envelope := event.envelope.getD .default
  let outbound := event.direction ≠ 2
  { eventId := envelope.eventId
    deviceKey := envelope.deviceKey
    eventTimeMs := envelope.eventTimeUnixMillis
    ingestTimeMs := envelope.ingestTimeUnixMillis
    captureSequence := event.captureSequence
    remoteIp := if outbound then event.dstIp else event.srcIp
    remotePort := if outbound then event.dstPort else event.srcPort
    protocol := event.protocol
    direction := event.direction
    attemptOutcome := event.attemptOutcome
    continuation := event.continuation
    bytesFromDevice := event.bytesFromDevice
    bytesToDevice := event.bytesToDevice
    malformedReason := none
    raw := raw }

def malformed (reason : String) (raw : List UInt8) : DeserializedFlow where
  eventId := ""
  deviceKey := ""
  eventTimeMs := 0
  ingestTimeMs := 0
  captureSequence := 0
  remoteIp := ""
  remotePort := 0
  protocol := 0
  direction := 0
  attemptOutcome := 0
  continuation := false
  bytesFromDevice := 0
  bytesToDevice := 0
  malformedReason := some reason
  raw := raw

end DeserializedFlow

/-- The event has the identity that the job keys and deduplicates on. -/
def FlowEvent.identified (event : FlowEvent) : Bool :=
  match event.envelope with
  | none => false
  | some envelope =>
      envelope.eventId ≠ "" && envelope.deviceKey ≠ "" && decide (0 < envelope.eventTimeUnixMillis)

/-- The parser's own text of an error is given. -/
def deserialize (errorText : List UInt8 → String) (message : Option (List UInt8)) :
    DeserializedFlow :=
  match message with
  | none => .malformed "empty value" []
  | some message =>
      match FlowEvent.parseFrom message with
      | none => .malformed ("not a FlowEvent: " ++ errorText message) message
      | some event =>
          if event.identified then .fromEvent event message
          else .malformed "missing event id, device key or event time" message

end PiAgents.Detection
