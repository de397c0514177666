import PiAgents.Capture.WrittenFields
import PiAgents.Detection.FlowEventDeserializer

/-! The sensor's encoder of flows and the job's deserializer agree on the wire. -/

namespace PiAgents.Detection

open Protobuf
open Capture (Writer)
open Capture.Writer (Carries FieldNumber carries_empty)

@[simp] theorem toLong_toNat (v : UInt64) : toLong v.toNat = v.toInt64 := by
  rw [toLong, UInt64.ofNat_toNat]

private theorem flag_toNat (b : Bool) :
    decide ((if b = true then 1 else 0 : UInt64).toNat ≠ 0) = b := by
  cases b with
  | false => rfl
  | true => rfl

/-- The envelope as the job reads it: the sensor's, with its schema version and no trace id. -/
def readEnvelope (e : Capture.Envelope) : Envelope where
  eventId := e.eventId
  schemaVersion := Capture.schemaVersion
  gatewayId := e.gatewayId
  deviceKey := e.deviceKey
  eventTimeUnixMillis := e.eventTimeUnixMillis
  ingestTimeUnixMillis := e.ingestTimeUnixMillis
  traceId := ""

theorem mergeFrom_encodeEnvelope (e : Capture.Envelope)
    (bound : (Capture.encodeEnvelope e).length < 2 ^ 31) :
    Envelope.default.mergeFrom (Capture.encodeEnvelope e) = some (readEnvelope e) := by
  have start : Carries Envelope.setField .default Writer.empty .default := carries_empty
  have eventId := start.string 1 ⟨by decide, by decide⟩
    (fun e s => { e with eventId := s }) rfl (fun _ _ => rfl) e.eventId
  have schema := eventId.string 2 ⟨by decide, by decide⟩
    (fun e s => { e with schemaVersion := s }) rfl (fun _ _ => rfl) Capture.schemaVersion
  have gateway := schema.string 3 ⟨by decide, by decide⟩
    (fun e s => { e with gatewayId := s }) rfl (fun _ _ => rfl) e.gatewayId
  have device := gateway.string 4 ⟨by decide, by decide⟩
    (fun e s => { e with deviceKey := s }) rfl (fun _ _ => rfl) e.deviceKey
  have eventTime := device.uint 5 ⟨by decide, by decide⟩
    (fun e n => { e with eventTimeUnixMillis := toLong n }) rfl (fun _ _ => rfl)
    e.eventTimeUnixMillis.toUInt64
  have ingestTime := eventTime.uint 6 ⟨by decide, by decide⟩
    (fun e n => { e with ingestTimeUnixMillis := toLong n }) rfl (fun _ _ => rfl)
    e.ingestTimeUnixMillis.toUInt64
  have parsed := ingestTime.parsed bound
  simp only [toLong_toNat, Int64.toInt64_toUInt64] at parsed
  exact parsed

/-- The flow event as the job reads it. -/
def readEvent (gatewayId : String) (captureSequence : UInt64) (ingestTimeUnixMillis : Int64)
    (record : Capture.FlowRecord) : FlowEvent where
  envelope := some (readEnvelope
    (Capture.flowEnvelope gatewayId captureSequence ingestTimeUnixMillis record))
  captureSequence := captureSequence.toInt64
  deviceMac := Capture.formatMac record.key.deviceMac
  srcIp := record.ends.srcIp.text
  dstIp := record.ends.dstIp.text
  srcPort := toInt record.ends.srcPort.toNat
  dstPort := toInt record.ends.dstPort.toNat
  protocol := toInt (Capture.protocolNumber record.key.protocol).toNat
  direction := toInt (Capture.directionNumber record.flow.direction).toNat
  firstPacketTimeUnixMicros := Int64.ofInt record.flow.firstPacketUs
  lastPacketTimeUnixMicros := Int64.ofInt record.flow.lastPacketUs
  packetsFromDevice := toInt record.flow.packetsFromDevice.toNat
  packetsToDevice := toInt record.flow.packetsToDevice.toNat
  bytesFromDevice := record.flow.bytesFromDevice.toInt64
  bytesToDevice := record.flow.bytesToDevice.toInt64
  tcpSyn := toInt record.flow.tcpSyn.toNat
  tcpSynAck := toInt record.flow.tcpSynAck.toNat
  tcpRst := toInt record.flow.tcpRst.toNat
  tcpFin := toInt record.flow.tcpFin.toNat
  attemptOutcome := toInt (Capture.outcomeNumber record.attemptOutcome).toNat
  dnsQuery := record.flow.dnsQuery.getD ""
  continuation := record.continuation

theorem parseFrom_encodeFlowEvent (gatewayId : String) (captureSequence : UInt64)
    (ingestTimeUnixMillis : Int64) (record : Capture.FlowRecord)
    (bound : (Capture.encodeFlowEvent gatewayId captureSequence ingestTimeUnixMillis
      record).length < 2 ^ 31) :
    FlowEvent.parseFrom (Capture.encodeFlowEvent gatewayId captureSequence ingestTimeUnixMillis
      record) = some (readEvent gatewayId captureSequence ingestTimeUnixMillis record) := by
  let f := record.flow
  let k := record.key
  let envelope := Capture.flowEnvelope gatewayId captureSequence ingestTimeUnixMillis record
  have start : Carries FlowEvent.setField .default Writer.empty .default := carries_empty
  have w1 : Carries FlowEvent.setField .default
      (Writer.empty.message 1 (Capture.encodeEnvelope envelope))
      { FlowEvent.default with envelope := some (readEnvelope envelope) } :=
    start.message 1 ⟨by decide, by decide⟩
      (fun short => congrArg (Option.map _) (mergeFrom_encodeEnvelope envelope short))
  have w2 := w1.uint 2 ⟨by decide, by decide⟩
    (fun e n => { e with captureSequence := toLong n }) rfl (fun _ _ => rfl) captureSequence
  have w3 := w2.string 3 ⟨by decide, by decide⟩
    (fun e s => { e with deviceMac := s }) rfl (fun _ _ => rfl) (Capture.formatMac k.deviceMac)
  have w4 := w3.string 4 ⟨by decide, by decide⟩
    (fun e s => { e with srcIp := s }) rfl (fun _ _ => rfl) record.ends.srcIp.text
  have w5 := w4.string 5 ⟨by decide, by decide⟩
    (fun e s => { e with dstIp := s }) rfl (fun _ _ => rfl) record.ends.dstIp.text
  have w6 := w5.uint 6 ⟨by decide, by decide⟩
    (fun e n => { e with srcPort := toInt n }) rfl (fun _ _ => rfl) record.ends.srcPort.toUInt64
  have w7 := w6.uint 7 ⟨by decide, by decide⟩
    (fun e n => { e with dstPort := toInt n }) rfl (fun _ _ => rfl) record.ends.dstPort.toUInt64
  have w8 := w7.uint 8 ⟨by decide, by decide⟩
    (fun e n => { e with protocol := toInt n }) rfl (fun _ _ => rfl)
    (Capture.protocolNumber k.protocol)
  have w9 := w8.uint 9 ⟨by decide, by decide⟩
    (fun e n => { e with direction := toInt n }) rfl (fun _ _ => rfl)
    (Capture.directionNumber f.direction)
  have w10 := w9.uint 10 ⟨by decide, by decide⟩
    (fun e n => { e with firstPacketTimeUnixMicros := toLong n }) rfl (fun _ _ => rfl)
    (Int64.ofInt f.firstPacketUs).toUInt64
  have w11 := w10.uint 11 ⟨by decide, by decide⟩
    (fun e n => { e with lastPacketTimeUnixMicros := toLong n }) rfl (fun _ _ => rfl)
    (Int64.ofInt f.lastPacketUs).toUInt64
  have w12 := w11.uint 12 ⟨by decide, by decide⟩
    (fun e n => { e with packetsFromDevice := toInt n }) rfl (fun _ _ => rfl)
    f.packetsFromDevice.toUInt64
  have w13 := w12.uint 13 ⟨by decide, by decide⟩
    (fun e n => { e with packetsToDevice := toInt n }) rfl (fun _ _ => rfl)
    f.packetsToDevice.toUInt64
  have w14 := w13.uint 14 ⟨by decide, by decide⟩
    (fun e n => { e with bytesFromDevice := toLong n }) rfl (fun _ _ => rfl) f.bytesFromDevice
  have w15 := w14.uint 15 ⟨by decide, by decide⟩
    (fun e n => { e with bytesToDevice := toLong n }) rfl (fun _ _ => rfl) f.bytesToDevice
  have w16 := w15.uint 16 ⟨by decide, by decide⟩
    (fun e n => { e with tcpSyn := toInt n }) rfl (fun _ _ => rfl) f.tcpSyn.toUInt64
  have w17 := w16.uint 17 ⟨by decide, by decide⟩
    (fun e n => { e with tcpSynAck := toInt n }) rfl (fun _ _ => rfl) f.tcpSynAck.toUInt64
  have w18 := w17.uint 18 ⟨by decide, by decide⟩
    (fun e n => { e with tcpRst := toInt n }) rfl (fun _ _ => rfl) f.tcpRst.toUInt64
  have w19 := w18.uint 19 ⟨by decide, by decide⟩
    (fun e n => { e with tcpFin := toInt n }) rfl (fun _ _ => rfl) f.tcpFin.toUInt64
  have w20 := w19.uint 20 ⟨by decide, by decide⟩
    (fun e n => { e with attemptOutcome := toInt n }) rfl (fun _ _ => rfl)
    (Capture.outcomeNumber record.attemptOutcome)
  have w21 := w20.string 21 ⟨by decide, by decide⟩
    (fun e s => { e with dnsQuery := s }) rfl (fun _ _ => rfl) (f.dnsQuery.getD "")
  have w22 := w21.uint 22 ⟨by decide, by decide⟩
    (fun e n => { e with continuation := n ≠ 0 }) rfl (fun _ _ => rfl)
    (if record.continuation then 1 else 0)
  have parsed := w22.parsed bound
  simp only [toLong_toNat, Int64.toInt64_toUInt64, UInt16.toNat_toUInt64, UInt32.toNat_toUInt64,
    flag_toNat] at parsed
  exact parsed

private theorem append_cons_ne_empty (s : String) (c : Char) (t : String) :
    s ++ String.singleton c ++ t ≠ "" := by
  intro empty
  have length := congrArg String.length empty
  rw [String.length_append, String.length_append, String.length_singleton] at length
  have none : "".length = 0 := rfl
  omega

theorem eventTime_toInt {lastPacketUs : Int} (least : -2 ^ 63 ≤ lastPacketUs)
    (bound : lastPacketUs < 2 ^ 63) :
    (Int64.ofInt (lastPacketUs / 1000)).toInt = lastPacketUs / 1000 := by
  apply Int64.toInt_ofInt_of_le
  · omega
  · omega

theorem identified_readEvent (gatewayId : String) (captureSequence : UInt64)
    (ingestTimeUnixMillis : Int64) {record : Capture.FlowRecord}
    (later : 1000 ≤ record.flow.lastPacketUs) (bound : record.flow.lastPacketUs < 2 ^ 63) :
    (readEvent gatewayId captureSequence ingestTimeUnixMillis record).identified = true := by
  have eventId : Capture.flowEventId gatewayId captureSequence ≠ "" :=
    append_cons_ne_empty gatewayId '/' _
  have device : Capture.deviceKey gatewayId record ≠ "" := append_cons_ne_empty gatewayId ':' _
  have time : 0 < Int64.ofInt (record.flow.lastPacketUs / 1000) := by
    rw [Int64.lt_iff_toInt_lt, eventTime_toInt (Int.le_trans (by decide) later) bound]
    exact Int.lt_of_lt_of_le Int.zero_lt_one ((Int.le_ediv_iff_mul_le (by decide)).mpr later)
  change (decide (Capture.flowEventId gatewayId captureSequence ≠ "") &&
    decide (Capture.deviceKey gatewayId record ≠ "") &&
    decide (0 < Int64.ofInt (record.flow.lastPacketUs / 1000))) = true
  rw [decide_eq_true eventId, decide_eq_true device, decide_eq_true time]
  rfl

/-- What the sensor flushed and what the job takes over are the same. -/
structure WireAgreement (gatewayId : String) (captureSequence : UInt64)
    (ingestTimeUnixMillis : Int64) (record : Capture.FlowRecord) (flow : DeserializedFlow) :
    Prop where
  usable : flow.malformedReason = none
  eventId : flow.eventId = gatewayId ++ "/" ++ toString captureSequence.toNat
  deviceKey : flow.deviceKey = Capture.deviceKey gatewayId record
  eventTime : flow.eventTimeMs.toInt = record.flow.lastPacketUs / 1000
  ingestTime : flow.ingestTimeMs = ingestTimeUnixMillis
  remoteIp : flow.remoteIp = record.key.remoteIp.text
  remotePort : flow.remotePort.toInt = record.key.remotePort.toNat
  protocol : flow.protocol.toInt = (Capture.protocolNumber record.key.protocol).toNat
  direction : flow.direction.toInt = (Capture.directionNumber record.flow.direction).toNat
  outcome : flow.attemptOutcome.toInt = (Capture.outcomeNumber record.attemptOutcome).toNat
  bytesFromDevice : flow.bytesFromDevice.toUInt64 = record.flow.bytesFromDevice
  bytesToDevice : flow.bytesToDevice.toUInt64 = record.flow.bytesToDevice
  continuation : flow.continuation = record.continuation

private theorem toInt_of_lt {n : Nat} (bound : n < 2 ^ 31) : (toInt n).toInt = n := by
  have word : (BitVec.ofNat 32 n).toNat = n := by
    rw [BitVec.toNat_ofNat, Nat.mod_eq_of_lt (bound.trans (by decide))]
  have positive : 2 * (BitVec.ofNat 32 n).toNat < 2 ^ 32 := by omega
  change (BitVec.ofNat 32 n).toInt = n
  rw [BitVec.toInt_eq_toNat_of_lt positive, word]

theorem remote_of_fromEvent (gatewayId : String) (captureSequence : UInt64)
    (ingestTimeUnixMillis : Int64) (record : Capture.FlowRecord) (raw : List UInt8) :
    (DeserializedFlow.fromEvent
        (readEvent gatewayId captureSequence ingestTimeUnixMillis record) raw).remoteIp =
      record.key.remoteIp.text ∧
    (DeserializedFlow.fromEvent
        (readEvent gatewayId captureSequence ingestTimeUnixMillis record) raw).remotePort =
      toInt record.key.remotePort.toNat := by
  have outbound : toInt (Capture.directionNumber .outbound).toNat ≠ 2 := by decide
  have inbound : ¬ toInt (Capture.directionNumber .inbound).toNat ≠ 2 := by decide
  cases way : record.flow.direction with
  | outbound =>
      simp only [DeserializedFlow.fromEvent, readEvent, Capture.FlowRecord.ends, way]
      exact ⟨if_pos outbound, if_pos outbound⟩
  | inbound =>
      simp only [DeserializedFlow.fromEvent, readEvent, Capture.FlowRecord.ends, way]
      exact ⟨if_neg inbound, if_neg inbound⟩

theorem protocolNumber_lt (protocol : Capture.Protocol) :
    (Capture.protocolNumber protocol).toNat < 2 ^ 31 := by
  cases protocol with
  | tcp => decide
  | udp => decide
  | icmp => decide
  | icmpv6 => decide
  | other number => exact show 15 < 2 ^ 31 by decide

theorem directionNumber_lt (direction : Capture.Direction) :
    (Capture.directionNumber direction).toNat < 2 ^ 31 := by
  cases direction with
  | outbound => decide
  | inbound => decide

theorem outcomeNumber_lt (outcome : Capture.AttemptOutcome) :
    (Capture.outcomeNumber outcome).toNat < 2 ^ 31 := by
  cases outcome with
  | notApplicable => decide
  | established => decide
  | rejected => decide
  | unanswered => decide

theorem fromEvent_agrees (gatewayId : String) (captureSequence : UInt64)
    (ingestTimeUnixMillis : Int64) {record : Capture.FlowRecord} (raw : List UInt8)
    (later : 1000 ≤ record.flow.lastPacketUs) (bound : record.flow.lastPacketUs < 2 ^ 63) :
    WireAgreement gatewayId captureSequence ingestTimeUnixMillis record
      (.fromEvent (readEvent gatewayId captureSequence ingestTimeUnixMillis record) raw) where
  usable := rfl
  eventId := rfl
  deviceKey := rfl
  eventTime := eventTime_toInt (Int.le_trans (by decide) later) bound
  ingestTime := rfl
  remoteIp := (remote_of_fromEvent ..).1
  remotePort := by
    rw [(remote_of_fromEvent ..).2]
    exact toInt_of_lt (record.key.remotePort.toNat_lt.trans (by decide))
  protocol := toInt_of_lt (protocolNumber_lt _)
  direction := toInt_of_lt (directionNumber_lt _)
  outcome := toInt_of_lt (outcomeNumber_lt _)
  bytesFromDevice := rfl
  bytesToDevice := rfl
  continuation := rfl

/-- Every flow that the sensor sends is read back by the job, in either direction. The encoding is
a Java array, and the packet times are 64-bit numbers. -/
theorem deserialize_of_encodeFlowEvent (errorText : List UInt8 → String) (gatewayId : String)
    (captureSequence : UInt64) (ingestTimeUnixMillis : Int64) (record : Capture.FlowRecord)
    (later : 1000 ≤ record.flow.lastPacketUs) (bound : record.flow.lastPacketUs < 2 ^ 63)
    (array : (Capture.encodeFlowEvent gatewayId captureSequence ingestTimeUnixMillis
      record).length < 2 ^ 31) :
    WireAgreement gatewayId captureSequence ingestTimeUnixMillis record
      (deserialize errorText (some
        (Capture.encodeFlowEvent gatewayId captureSequence ingestTimeUnixMillis record))) := by
  have parsed := parseFrom_encodeFlowEvent gatewayId captureSequence ingestTimeUnixMillis record array
  have identified := identified_readEvent gatewayId captureSequence ingestTimeUnixMillis later bound
  simp only [deserialize, parsed, if_pos identified]
  exact fromEvent_agrees gatewayId captureSequence ingestTimeUnixMillis _ later bound

theorem usable_eventTime {errorText : List UInt8 → String} {gatewayId : String}
    {captureSequence : UInt64} {ingestTimeUnixMillis : Int64} {record : Capture.FlowRecord}
    (least : -2 ^ 63 ≤ record.flow.lastPacketUs) (bound : record.flow.lastPacketUs < 2 ^ 63)
    (array : (Capture.encodeFlowEvent gatewayId captureSequence ingestTimeUnixMillis
      record).length < 2 ^ 31)
    (usable : (deserialize errorText (some (Capture.encodeFlowEvent gatewayId captureSequence
      ingestTimeUnixMillis record))).malformedReason = none) :
    (deserialize errorText (some (Capture.encodeFlowEvent gatewayId captureSequence
        ingestTimeUnixMillis record))).eventTimeMs.toInt = record.flow.lastPacketUs / 1000 ∧
      0 < record.flow.lastPacketUs / 1000 := by
  have parsed := parseFrom_encodeFlowEvent gatewayId captureSequence ingestTimeUnixMillis record array
  by_cases identified :
      (readEvent gatewayId captureSequence ingestTimeUnixMillis record).identified = true
  · simp only [deserialize, parsed, if_pos identified]
    have time := eventTime_toInt least bound
    refine ⟨time, ?_⟩
    have parts := Bool.and_eq_true_iff.mp identified
    have positive : 0 < Int64.ofInt (record.flow.lastPacketUs / 1000) :=
      of_decide_eq_true parts.2
    rw [Int64.lt_iff_toInt_lt, time] at positive
    exact positive
  · simp only [deserialize, parsed, if_neg identified] at usable
    cases usable

/-- An inbound flow without bytes towards the device, and with a count above the signed ones. -/
def inboundFlow : Capture.FlowRecord where
  key :=
    { deviceMac := .ofOctets 2 0 0 0 0 0x0a
      deviceIp := .v4 #v[192, 168, 50, 10]
      remoteIp := .v4 #v[203, 0, 113, 7]
      devicePort := 443
      remotePort := 65535
      protocol := .tcp }
  flow :=
    { firstPacketUs := -5
      lastPacketUs := 1767225600123999
      direction := .inbound
      packetsFromDevice := 2
      packetsToDevice := 0
      bytesFromDevice := 0xffffffffffffffff
      bytesToDevice := 0
      tcpSyn := 1
      tcpSynAck := 0
      tcpRst := 0
      tcpFin := 0
      dnsQuery := none
      initiatingSyn := true
      established := false
      rejected := false }
  attemptOutcome := .unanswered
  continuation := true

theorem deserialize_of_inboundFlow :
    WireAgreement "gw" 18446744073709551615 1767225601000 inboundFlow
      (deserialize (fun _ => "") (some
        (Capture.encodeFlowEvent "gw" 18446744073709551615 1767225601000 inboundFlow))) :=
  deserialize_of_encodeFlowEvent (fun _ => "") "gw" 18446744073709551615 1767225601000 inboundFlow
    (by decide) (by decide) (by decide +kernel)

end PiAgents.Detection
