import PiAgents.Capture.Sensor

/-! Both directions of a conversation through `process_frame`: when an attempt and its answer
reach the flow table under one key. -/

namespace PiAgents.Capture

def FiveTuple.reversed (tuple : FiveTuple) : FiveTuple where
  srcIp := tuple.dstIp
  dstIp := tuple.srcIp
  srcPort := tuple.dstPort
  dstPort := tuple.srcPort
  protocol := tuple.protocol

/-- The two directions of one conversation: MAC, address and port swapped, same protocol. -/
structure Conversation (there back : ParsedPacket) : Prop where
  distinct : there.srcMac ≠ there.dstMac
  srcMac : back.srcMac = there.dstMac
  dstMac : back.dstMac = there.srcMac
  tuple : back.tuple = there.tuple.reversed

def ParsedPacket.rejects (packet : ParsedPacket) : Prop :=
  ∃ quoted, packet.icmp = some (.unreachable quoted)

/-- The observation `processFrame` feeds to the flow table, if any. -/
def Sensor.feeds (sensor : Sensor) (timestampUs : Int) (data : Bytes) (wireLen : UInt32) :
    Option Observation :=
  match parseEthernet data wireLen with
  | .ok packet => sensor.clients.observe packet timestampUs
  | .error _ => none

/-- Both frames reach the table, under one key and with opposite senders. -/
def OneFlow : Option Observation → Option Observation → Prop
  | some there, some back => there.key = back.key ∧ there.fromDevice = !back.fromDevice
  | _, _ => False

instance : DecidableRel OneFlow := fun there back => by
  cases there <;> cases back <;> unfold OneFlow <;> infer_instance

theorem process_frame_feeds (sensor : Sensor) (timestampUs : Int) (data : Bytes)
    (wireLen : UInt32) (obs : Observation)
    (fed : sensor.feeds timestampUs data wireLen = some obs) :
    ∃ counted : Sensor, counted.table = sensor.table ∧
      sensor.processFrame timestampUs data wireLen = .ok (counted.feed obs) := by
  cases parsed : parseEthernet data wireLen with
  | error fault => simp [Sensor.feeds, parsed] at fed
  | ok packet =>
      simp only [Sensor.feeds, parsed] at fed
      refine ⟨{ sensor with stats := { sensor.stats with frames := sensor.stats.frames + 1 } },
        rfl, ?_⟩
      simp only [Sensor.processFrame, parsed, fed]

theorem process_frame_keeps_table (sensor next : Sensor) (timestampUs : Int) (data : Bytes)
    (wireLen : UInt32) (out : List FlowRecord)
    (unfed : sensor.feeds timestampUs data wireLen = none)
    (ran : sensor.processFrame timestampUs data wireLen = .ok (next, out)) :
    next.table = sensor.table ∧ out = [] := by
  cases parsed : parseEthernet data wireLen with
  | ok packet =>
      simp only [Sensor.feeds, parsed] at unfed
      simp only [Sensor.processFrame, parsed, unfed, Except.ok.injEq, Prod.mk.injEq] at ran
      exact ⟨ran.1 ▸ rfl, ran.2.symm⟩
  | error fault =>
      cases fault with
      | panic => simp only [Sensor.processFrame, parsed, reduceCtorEq] at ran
      | err reason =>
          cases reason <;>
            (simp only [Sensor.processFrame, parsed, Except.ok.injEq, Prod.mk.injEq] at ran
             exact ⟨ran.1 ▸ rfl, ran.2.symm⟩)

theorem observation_plain (packet : ParsedPacket) (deviceMac : Mac) (fromDevice : Bool)
    (timestampUs : Int) (plain : ¬ packet.rejects) :
    (packet.observation deviceMac fromDevice timestampUs).key =
      orientedKey deviceMac packet.tuple fromDevice := by
  have evidence : packet.evidence fromDevice = (packet.tuple, false, fromDevice) := by
    unfold ParsedPacket.evidence
    split
    · next quoted unreachable => exact absurd ⟨quoted, unreachable⟩ plain
    · rfl
  simp only [ParsedPacket.observation, evidence]

theorem oriented_key_reversed (deviceMac : Mac) (tuple : FiveTuple) (deviceIsSource : Bool) :
    orientedKey deviceMac tuple.reversed (!deviceIsSource) =
      orientedKey deviceMac tuple deviceIsSource := by
  cases deviceIsSource <;> rfl

theorem oriented_key_mac (deviceMac : Mac) (tuple : FiveTuple) (deviceIsSource : Bool) :
    (orientedKey deviceMac tuple deviceIsSource).deviceMac = deviceMac := by
  cases deviceIsSource <;> rfl

section

variable (clients : Clients) (there back : ParsedPacket) (thereUs backUs : Int)

theorem one_flow_of_source (conversation : Conversation there back)
    (plainThere : ¬ there.rejects) (plainBack : ¬ back.rejects)
    (source : there.srcMac ∈ clients.macs) (other : there.dstMac ∉ clients.macs) :
    OneFlow (clients.observe there thereUs) (clients.observe back backUs) := by
  have first : clients.observe there thereUs =
      some (there.observation there.srcMac true thereUs) := by
    simp only [Clients.observe, Clients.attribute, if_pos source]
  have second : clients.observe back backUs =
      some (back.observation there.srcMac false backUs) := by
    simp only [Clients.observe, Clients.attribute, conversation.srcMac, conversation.dstMac,
      if_pos source, if_neg other]
  rw [first, second]
  constructor
  · rw [observation_plain _ _ _ _ plainThere, observation_plain _ _ _ _ plainBack,
      conversation.tuple]
    exact (oriented_key_reversed there.srcMac there.tuple true).symm
  · rfl

theorem OneFlow.symm {first second : Option Observation} (meet : OneFlow first second) :
    OneFlow second first := by
  cases first <;> cases second <;> simp_all [OneFlow]

theorem Conversation.symm {there back : ParsedPacket} (conversation : Conversation there back) :
    Conversation back there where
  distinct := by
    rw [conversation.srcMac, conversation.dstMac]
    exact conversation.distinct.symm
  srcMac := conversation.dstMac.symm
  dstMac := conversation.srcMac.symm
  tuple := by rw [conversation.tuple]; rfl

/-- Two clients: each direction is attributed to its own sender, so the keys differ. -/
theorem two_clients_split (conversation : Conversation there back)
    (plainThere : ¬ there.rejects) (plainBack : ¬ back.rejects)
    (source : there.srcMac ∈ clients.macs) (other : there.dstMac ∈ clients.macs) :
    ¬ OneFlow (clients.observe there thereUs) (clients.observe back backUs) := by
  have first : clients.observe there thereUs =
      some (there.observation there.srcMac true thereUs) := by
    simp only [Clients.observe, Clients.attribute, if_pos source]
  have second : clients.observe back backUs =
      some (back.observation there.dstMac true backUs) := by
    simp only [Clients.observe, Clients.attribute, conversation.srcMac, if_pos other]
  rw [first, second]
  rintro ⟨sameKey, -⟩
  rw [observation_plain _ _ _ _ plainThere, observation_plain _ _ _ _ plainBack] at sameKey
  have sameMac := congrArg FlowKey.deviceMac sameKey
  rw [oriented_key_mac, oriented_key_mac] at sameMac
  exact conversation.distinct sameMac

end

/-- Exactly when the directions of a conversation meet in one micro-flow, once either is
attributed to a device: unless both ends are known clients. -/
theorem conversation_one_flow_iff (sensor : Sensor) (thereUs backUs : Int)
    (thereData backData : Bytes) (thereLen backLen : UInt32) (there back : ParsedPacket)
    (thereParses : parseEthernet thereData thereLen = .ok there)
    (backParses : parseEthernet backData backLen = .ok back)
    (plainThere : ¬ there.rejects) (plainBack : ¬ back.rejects)
    (conversation : Conversation there back) :
    ((sensor.clients.attribute there.srcMac there.dstMac ≠ .unattributed ∨
        sensor.clients.attribute back.srcMac back.dstMac ≠ .unattributed) →
      OneFlow (sensor.feeds thereUs thereData thereLen) (sensor.feeds backUs backData backLen)) ↔
    ¬ (there.srcMac ∈ sensor.clients.macs ∧ there.dstMac ∈ sensor.clients.macs) := by
  simp only [Sensor.feeds, thereParses, backParses]
  constructor
  · rintro meets ⟨source, other⟩
    refine two_clients_split _ _ _ thereUs backUs conversation plainThere plainBack source other
      (meets (Or.inl ?_))
    simp [Clients.attribute, source]
  · intro oneClient attributed
    by_cases source : there.srcMac ∈ sensor.clients.macs
    · have other : there.dstMac ∉ sensor.clients.macs := fun other => oneClient ⟨source, other⟩
      exact one_flow_of_source _ _ _ _ _ conversation plainThere plainBack source other
    · by_cases other : there.dstMac ∈ sensor.clients.macs
      · apply OneFlow.symm
        apply one_flow_of_source _ _ _ _ _ conversation.symm plainBack plainThere
        · rwa [conversation.srcMac]
        · rwa [conversation.dstMac]
      · simp [Clients.attribute, conversation.srcMac, conversation.dstMac, source, other]
          at attributed

/-- Ethernet, IPv4 and TCP headers of a frame without payload. -/
def tcpFrame (srcMac dstMac srcIp dstIp srcPort dstPort : Bytes) (flags : UInt8) : Bytes :=
  dstMac ++ srcMac ++ [0x08, 0x00] ++
    [0x45, 0, 0, 40, 0, 0, 0, 0, 64, 6, 0, 0] ++ srcIp ++ dstIp ++
    srcPort ++ dstPort ++ [0, 0, 0, 1, 0, 0, 0, 0, 0x50, flags, 0xff, 0xff, 0, 0, 0, 0]

def macA : Bytes := [0x02, 0, 0, 0, 0, 0x0a]
def macB : Bytes := [0x02, 0, 0, 0, 0, 0x0b]

def sensorOf (macs : Finset Mac) : Sensor :=
  .new ⟨macs⟩ (.new defaultCapacity default_capacity_pos)

/-- A SYN from one leased client to another, and the SYN-ACK that answers it. -/
def synFrame : Bytes :=
  tcpFrame macA macB [192, 168, 50, 10] [192, 168, 50, 11] [0x9c, 0x40] [0, 22] tcpSyn
def synAckFrame : Bytes :=
  tcpFrame macB macA [192, 168, 50, 11] [192, 168, 50, 10] [0, 22] [0x9c, 0x40] (tcpSyn ||| tcpAck)

def tcpPacket (srcMac dstMac : Mac) (srcIp dstIp : IpAddr) (srcPort dstPort : UInt16)
    (flags : UInt8) : ParsedPacket :=
  { srcMac, dstMac, tcpFlags := flags, wireLen := 54, icmp := none, dnsQuery := none
    tuple := { srcIp, dstIp, srcPort, dstPort, protocol := .tcp } }

def synPacket : ParsedPacket :=
  tcpPacket (.ofOctets 2 0 0 0 0 10) (.ofOctets 2 0 0 0 0 11) (.ofOctets 192 168 50 10)
    (.ofOctets 192 168 50 11) 40000 22 tcpSyn
def synAckPacket : ParsedPacket :=
  tcpPacket (.ofOctets 2 0 0 0 0 11) (.ofOctets 2 0 0 0 0 10) (.ofOctets 192 168 50 11)
    (.ofOctets 192 168 50 10) 22 40000 (tcpSyn ||| tcpAck)

theorem syn_frame_parses : parseEthernet synFrame 54 = .ok synPacket := by decide
theorem syn_ack_frame_parses : parseEthernet synAckFrame 54 = .ok synAckPacket := by decide

theorem syn_conversation : Conversation synPacket synAckPacket :=
  ⟨by decide, by decide, by decide, by decide⟩

theorem syn_packets_plain : ¬ synPacket.rejects ∧ ¬ synAckPacket.rejects := by
  constructor <;> rintro ⟨_, quoted⟩ <;> cases quoted

theorem conversation_one_flow_iff_one_lease :
    ((sensorOf {synPacket.srcMac}).clients.attribute synPacket.srcMac synPacket.dstMac
          ≠ .unattributed ∨
        (sensorOf {synPacket.srcMac}).clients.attribute synAckPacket.srcMac synAckPacket.dstMac
          ≠ .unattributed →
      OneFlow ((sensorOf {synPacket.srcMac}).feeds 0 synFrame 54)
        ((sensorOf {synPacket.srcMac}).feeds 900 synAckFrame 54)) ↔
    ¬ (synPacket.srcMac ∈ (sensorOf {synPacket.srcMac}).clients.macs ∧
        synPacket.dstMac ∈ (sensorOf {synPacket.srcMac}).clients.macs) :=
  conversation_one_flow_iff (sensorOf {synPacket.srcMac}) 0 900 synFrame synAckFrame 54 54 synPacket
    synAckPacket syn_frame_parses syn_ack_frame_parses syn_packets_plain.1 syn_packets_plain.2
    syn_conversation

/-- With both ends leased the SYN and its SYN-ACK go to two micro-flows. -/
theorem two_leased_clients_miss :
    (sensorOf {synPacket.srcMac, synPacket.dstMac}).clients.attribute synPacket.srcMac
        synPacket.dstMac ≠ .unattributed ∧
      ¬ OneFlow ((sensorOf {synPacket.srcMac, synPacket.dstMac}).feeds 0 synFrame 54)
        ((sensorOf {synPacket.srcMac, synPacket.dstMac}).feeds 900 synAckFrame 54) := by
  decide

end PiAgents.Capture
