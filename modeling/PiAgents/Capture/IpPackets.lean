import PiAgents.Capture.Frames

/-! Well-formed IP packets, and what the parser reads of a frame that carries one: the packet alone,
whatever link-layer padding follows it. -/

namespace PiAgents.Capture

/-! Fields at fixed places. -/

def octets (n : Nat) (b : Bytes) (start : Nat) : Vector UInt8 n :=
  Vector.ofFn fun i => b.getD (start + i) 0

def field16 (b : Bytes) (start : Nat) : UInt16 :=
  UInt16.ofNat ((b.getD start 0).toNat * 256 + (b.getD (start + 1) 0).toNat)

theorem octets_append {n start : Nat} {b : Bytes} (inside : start + n ≤ b.length) (rest : Bytes) :
    octets n (b ++ rest) start = octets n b start := by
  rw [octets, octets]
  congr 1
  funext i
  exact List.getD_append _ _ _ _ (by omega)

theorem field16_append {start : Nat} {b : Bytes} (inside : start + 2 ≤ b.length) (rest : Bytes) :
    field16 (b ++ rest) start = field16 b start := by
  rw [field16, field16, List.getD_append _ _ _ _ (by omega), List.getD_append _ _ _ _ (by omega)]

private theorem index_eq {b : Bytes} {i : Nat} (inside : i < b.length) :
    index b i = .ok (b.getD i 0) := by
  rw [index, List.getElem?_eq_getElem inside, List.getD_eq_getElem b 0 inside]

theorem be16_eq {b : Bytes} {start : Nat} (inside : start + 2 ≤ b.length) :
    be16 b start = .ok (field16 b start) := by
  have two : (b.drop start).take (start + 2 - start) = [b.getD start 0, b.getD (start + 1) 0] := by
    rw [List.drop_eq_getElem_cons (by omega), List.drop_eq_getElem_cons (by omega),
      List.getD_eq_getElem b 0 (by omega), List.getD_eq_getElem b 0 (by omega),
      Nat.add_sub_cancel_left]
    rfl
  rw [be16, getRange_some (by omega) inside, two]
  rfl

private theorem copyFromSlice_eq {n start : Nat} {b : Bytes} (inside : start + n ≤ b.length) :
    copyFromSlice n ((b.drop start).take (start + n - start)) = .ok (octets n b start) := by
  have length : ((b.drop start).take (start + n - start)).length = n := by
    rw [List.length_take, List.length_drop]
    omega
  rw [copyFromSlice, dif_pos length]
  congr 1
  ext i small
  have inside : start + i < b.length := by omega
  simp [octets, inside]

private theorem mac_eq {b : Bytes} {start : Nat} (inside : start + 6 ≤ b.length) :
    mac b start = .ok (octets 6 b start) := by
  rw [mac, getRange_some (by omega) inside]
  exact copyFromSlice_eq inside

private theorem ipv4Addr_eq {b : Bytes} {start : Nat} (inside : start + 4 ≤ b.length) :
    ipv4Addr b start = .ok (.v4 (octets 4 b start)) := by
  rw [ipv4Addr, index_eq (by omega), ok_bind, index_eq (by omega), ok_bind, index_eq (by omega),
    ok_bind, index_eq (by omega), ok_bind]
  rfl

private theorem firstByte_eq {b : Bytes} (one : 1 ≤ b.length) : firstByte b = .ok (b.headD 0) := by
  cases b with
  | nil => cases one
  | cons first rest => rfl

/-- The header length an IPv4 header states of itself. -/
def headerLength (b : Bytes) : Nat := (b.headD 0 &&& 0x0f).toNat * 4

theorem parseIpv4_eq {b : Bytes} (version : b.headD 0 >>> 4 = 4) (minimal : 20 ≤ headerLength b)
    (inside : headerLength b ≤ b.length) :
    parseIpv4 b = .ok
      { src := .v4 (octets 4 b 12)
        dst := .v4 (octets 4 b 16)
        protocol := protocolFrom (b.getD 9 0)
        firstFragment := field16 b 6 &&& 0x1fff = 0
        payload := (b.drop (headerLength b)).take
          (max (headerLength b) (min (field16 b 2).toNat b.length) - headerLength b) } := by
  rw [headerLength] at *
  rw [parseIpv4, firstByte_eq (by omega), ok_bind, if_neg (fun other => other version)]
  dsimp only
  rw [if_neg (by omega), be16_eq (by omega), ok_bind, clamp_ok inside, ok_bind, be16_eq (by omega),
    ok_bind, ipv4Addr_eq (by omega), ok_bind, ipv4Addr_eq (by omega), ok_bind, index_eq (by omega),
    ok_bind, slice_ok (by omega) (by omega)]
  rfl

theorem parseIpv6_eq {b : Bytes} (version : b.headD 0 >>> 4 = 6) (inside : 40 ≤ b.length) :
    parseIpv6 b = .ok
      { src := .v6 (octets 16 b 8)
        dst := .v6 (octets 16 b 24)
        protocol := protocolFrom (b.getD 6 0)
        firstFragment := true
        payload := (b.drop 40).take (min (40 + (field16 b 4).toNat) b.length - 40) } := by
  have first : b.getD 0 0 = b.headD 0 := by cases b <;> rfl
  rw [parseIpv6]
  dsimp only
  rw [if_neg (by omega), index_eq (by omega), ok_bind, first, if_neg (fun other => other version),
    slice_ok (by omega) (by omega), ok_bind, copyFromSlice_eq (by omega), ok_bind,
    slice_ok (by omega) (by omega), ok_bind, copyFromSlice_eq (by omega), ok_bind,
    be16_eq (by omega), ok_bind, index_eq (by omega), ok_bind, slice_ok (by omega) (by omega)]
  rfl

/-- An IPv4 packet whose length fields are true of its own bytes. -/
structure Ipv4Packet where
  header : Bytes
  payload : Bytes
  version : header.headD 0 >>> 4 = 4
  headerLen : headerLength header = header.length
  minimal : 20 ≤ header.length
  totalLen : (field16 header 2).toNat = header.length + payload.length

/-- An IPv6 packet whose payload length is true of its own bytes. -/
structure Ipv6Packet where
  header : Bytes
  payload : Bytes
  version : header.headD 0 >>> 4 = 6
  headerLen : header.length = 40
  payloadLen : (field16 header 4).toNat = payload.length

inductive IpPacket where
  | v4 (packet : Ipv4Packet)
  | v6 (packet : Ipv6Packet)

namespace IpPacket

def etherType : IpPacket → UInt16
  | v4 _ => etherTypeIpv4
  | v6 _ => etherTypeIpv6

def header : IpPacket → Bytes
  | v4 p => p.header
  | v6 p => p.header

def payload : IpPacket → Bytes
  | v4 p => p.payload
  | v6 p => p.payload

def bytes (packet : IpPacket) : Bytes := packet.header ++ packet.payload

def protocol : IpPacket → Protocol
  | v4 p => protocolFrom (p.header.getD 9 0)
  | v6 p => protocolFrom (p.header.getD 6 0)

/-- In units of 8 bytes. -/
def fragmentOffset : IpPacket → UInt16
  | v4 p => field16 p.header 6 &&& 0x1fff
  | v6 _ => 0

def source : IpPacket → IpAddr
  | v4 p => .v4 (octets 4 p.header 12)
  | v6 p => .v6 (octets 16 p.header 8)

def destination : IpPacket → IpAddr
  | v4 p => .v4 (octets 4 p.header 16)
  | v6 p => .v6 (octets 16 p.header 24)

/-- The layer read of the packet's header before the given payload. -/
def layer (packet : IpPacket) (payload : Bytes) : IpLayer where
  src := packet.source
  dst := packet.destination
  protocol := packet.protocol
  firstFragment := packet.fragmentOffset = 0
  payload := payload

end IpPacket

theorem headD_append {b : Bytes} (one : 1 ≤ b.length) (rest : Bytes) :
    (b ++ rest).headD 0 = b.headD 0 := by
  cases b with
  | nil => cases one
  | cons first more => rfl

theorem headerLength_append {b : Bytes} (one : 1 ≤ b.length) (rest : Bytes) :
    headerLength (b ++ rest) = headerLength b := by
  rw [headerLength, headerLength, headD_append one]

theorem ipLayer_packet (packet : IpPacket) (padding : Bytes) :
    ipLayer packet.etherType (packet.bytes ++ padding) = .ok (packet.layer packet.payload) := by
  rw [IpPacket.bytes, List.append_assoc]
  cases packet with
  | v4 p =>
      have minimal := p.minimal
      have one : 1 ≤ p.header.length := by omega
      have length : (p.header ++ (p.payload ++ padding)).length =
          p.header.length + (p.payload.length + padding.length) := by
        rw [List.length_append, List.length_append]
      have payload : ((p.header ++ (p.payload ++ padding)).drop p.header.length).take
          (max p.header.length (min (p.header.length + p.payload.length)
            (p.header.length + (p.payload.length + padding.length))) - p.header.length) =
            p.payload := by
        rw [List.drop_left]
        apply List.take_left'
        omega
      change parseIpv4 (p.header ++ (p.payload ++ padding)) = _
      rw [parseIpv4_eq (by rw [headD_append one, p.version])
        (by rw [headerLength_append one, p.headerLen]; exact minimal)
        (by rw [headerLength_append one, p.headerLen]; omega),
        headerLength_append one, p.headerLen,
        field16_append (show 2 + 2 ≤ p.header.length by omega), p.totalLen, length, payload,
        octets_append (by omega), octets_append (by omega), List.getD_append _ _ _ _ (by omega),
        field16_append (show 6 + 2 ≤ p.header.length by omega)]
      rfl
  | v6 p =>
      have headerLen := p.headerLen
      have length : (p.header ++ (p.payload ++ padding)).length =
          40 + (p.payload.length + padding.length) := by
        rw [List.length_append, List.length_append, headerLen]
      have payload : ((p.header ++ (p.payload ++ padding)).drop 40).take
          (min (40 + p.payload.length) (40 + (p.payload.length + padding.length)) - 40) =
            p.payload := by
        rw [List.drop_left' headerLen]
        apply List.take_left'
        omega
      change parseIpv6 (p.header ++ (p.payload ++ padding)) = _
      rw [parseIpv6_eq (by rw [headD_append (by omega), p.version]) (by omega),
        field16_append (by omega), p.payloadLen, length, payload, octets_append (by omega),
        octets_append (by omega), List.getD_append _ _ _ _ (by omega)]
      rfl

theorem linkLayer_eq {frame : Bytes} {etherType : UInt16} {l3 : Bytes}
    (read : linkLayer frame = .ok (etherType, l3)) :
    (14 ≤ frame.length ∧ field16 frame 12 ≠ etherTypeVlan ∧ etherType = field16 frame 12 ∧
        l3 = frame.drop 14) ∨
      (18 ≤ frame.length ∧ field16 frame 12 = etherTypeVlan ∧ etherType = field16 frame 16 ∧
        l3 = frame.drop 18) := by
  rw [linkLayer] at read
  cases outer : be16 frame 12 with
  | error fault =>
      rw [outer] at read
      cases read
  | ok type =>
      have long := be16_inside outer
      rw [be16_eq long] at outer
      obtain rfl := Except.ok.inj outer
      rw [be16_eq long, ok_bind] at read
      by_cases tagged : field16 frame 12 = etherTypeVlan
      · rw [if_pos tagged] at read
        cases inner : be16 frame 16 with
        | error fault =>
            rw [inner] at read
            cases read
        | ok innerType =>
            have longer := be16_inside inner
            rw [be16_eq longer] at inner
            obtain rfl := Except.ok.inj inner
            rw [be16_eq longer, ok_bind] at read
            obtain ⟨rfl, rfl⟩ := Prod.mk.inj (Except.ok.inj read)
            exact .inr ⟨longer, tagged, rfl, rfl⟩
      · rw [if_neg tagged] at read
        obtain ⟨rfl, rfl⟩ := Prod.mk.inj (Except.ok.inj read)
        exact .inl ⟨long, tagged, rfl, rfl⟩

private theorem linkLayer_untagged {frame : Bytes} (long : 14 ≤ frame.length)
    (untagged : field16 frame 12 ≠ etherTypeVlan) :
    linkLayer frame = .ok (field16 frame 12, frame.drop 14) := by
  rw [linkLayer, be16_eq long, ok_bind, if_neg untagged]
  rfl

private theorem linkLayer_tagged {frame : Bytes} (long : 18 ≤ frame.length)
    (tagged : field16 frame 12 = etherTypeVlan) :
    linkLayer frame = .ok (field16 frame 16, frame.drop 18) := by
  rw [linkLayer, be16_eq (by omega), ok_bind, if_pos tagged, be16_eq long]
  rfl

theorem linkLayer_append {stem l3 : Bytes} {etherType : UInt16}
    (read : linkLayer stem = .ok (etherType, l3)) (rest : Bytes) :
    linkLayer (stem ++ rest) = .ok (etherType, l3 ++ rest) := by
  have length : (stem ++ rest).length = stem.length + rest.length := List.length_append
  obtain ⟨long, untagged, rfl, rfl⟩ | ⟨long, tagged, rfl, rfl⟩ := linkLayer_eq read
  · rw [linkLayer_untagged (by omega) (by rwa [field16_append long]), field16_append long,
      List.drop_append_of_le_length long]
  · rw [linkLayer_tagged (by omega) (by rwa [field16_append (by omega)]), field16_append long,
      List.drop_append_of_le_length long]

theorem linkLayer_take {frame l3 : Bytes} {etherType : UInt16}
    (read : linkLayer frame = .ok (etherType, l3)) (n : Nat) :
    linkLayer (frame.take (frame.length - l3.length + n)) = .ok (etherType, l3.take n) := by
  have field {start stop : Nat} (inside : start + 2 ≤ stop) (bound : stop ≤ frame.length) :
      field16 (frame.take (stop + n)) start = field16 frame start := by
    have length : (frame.take (stop + n)).length = min (stop + n) frame.length :=
      List.length_take
    rw [← field16_append (b := frame.take (stop + n)) (by omega) (frame.drop (stop + n)),
      List.take_append_drop]
  obtain ⟨long, untagged, rfl, rfl⟩ | ⟨long, tagged, rfl, rfl⟩ := linkLayer_eq read
  · have start : frame.length - (frame.drop 14).length = 14 := by
      rw [List.length_drop]
      omega
    have length : (frame.take (14 + n)).length = min (14 + n) frame.length := List.length_take
    rw [start, linkLayer_untagged (by omega) (by rwa [field le_rfl long]), field le_rfl long,
      List.drop_take, Nat.add_sub_cancel_left]
  · have start : frame.length - (frame.drop 18).length = 18 := by
      rw [List.length_drop]
      omega
    have length : (frame.take (18 + n)).length = min (18 + n) frame.length := List.length_take
    rw [start, linkLayer_tagged (by omega) (by rwa [field (by omega) long]), field le_rfl long,
      List.drop_take, Nat.add_sub_cancel_left]

/-- The frame holds the packet after its link header, and maybe padding. -/
def Holds (frame : Bytes) (packet : IpPacket) : Prop :=
  ∃ padding, linkLayer frame = .ok (packet.etherType, packet.bytes ++ padding)

theorem parseEthernet_holds {frame : Bytes} {packet : IpPacket} (holds : Holds frame packet)
    (wireLen : UInt32) :
    parseEthernet frame wireLen =
      transportLayer
        ((packet.layer packet.payload).packet (octets 6 frame 6) (octets 6 frame 0) wireLen)
        (packet.layer packet.payload) := by
  obtain ⟨padding, link⟩ := holds
  have long : 14 ≤ frame.length := by
    obtain ⟨long, _⟩ | ⟨long, _⟩ := linkLayer_eq link
    · exact long
    · omega
  rw [parseEthernet_eq, mac_eq (by omega), ok_bind, mac_eq (by omega), ok_bind, link, ok_bind,
    ipLayer_packet, ok_bind]

theorem parseEthernet_append {stem : Bytes} (packet : IpPacket)
    (link : linkLayer stem = .ok (packet.etherType, packet.bytes)) (padding : Bytes)
    (wireLen : UInt32) : parseEthernet (stem ++ padding) wireLen = parseEthernet stem wireLen := by
  have alone : Holds stem packet := ⟨[], by rw [link, List.append_nil]⟩
  have padded : Holds (stem ++ padding) packet := ⟨padding, linkLayer_append link padding⟩
  have long : 14 ≤ stem.length := by
    obtain ⟨long, _⟩ | ⟨long, _⟩ := linkLayer_eq link
    · exact long
    · omega
  rw [parseEthernet_holds alone, parseEthernet_holds padded, octets_append (by omega),
    octets_append (by omega)]

theorem exists_ipv4 {l3 : Bytes} (version : l3.headD 0 >>> 4 = 4) (minimal : 20 ≤ headerLength l3)
    (long : headerLength l3 ≤ (field16 l3 2).toNat) (inside : (field16 l3 2).toNat ≤ l3.length) :
    ∃ p : Ipv4Packet, (IpPacket.v4 p).bytes = l3.take (field16 l3 2).toNat := by
  have length : (l3.take (headerLength l3)).length = headerLength l3 := by
    rw [List.length_take]
    omega
  have split : l3.take (headerLength l3) ++ l3.drop (headerLength l3) = l3 :=
    List.take_append_drop ..
  have first : (l3.take (headerLength l3)).headD 0 = l3.headD 0 := by
    rw [← headD_append (by omega) (l3.drop (headerLength l3)), split]
  have total : field16 (l3.take (headerLength l3)) 2 = field16 l3 2 := by
    rw [← field16_append (by omega) (l3.drop (headerLength l3)), split]
  have whole := List.take_append_drop (headerLength l3) (l3.take (field16 l3 2).toNat)
  rw [List.take_take, Nat.min_eq_left long] at whole
  have lengths : (field16 l3 2).toNat =
      (l3.take (headerLength l3)).length +
        ((l3.take (field16 l3 2).toNat).drop (headerLength l3)).length := by
    rw [length, List.length_drop, List.length_take]
    omega
  exact ⟨⟨l3.take (headerLength l3), (l3.take (field16 l3 2).toNat).drop (headerLength l3),
    by rw [first, version], by rw [length, headerLength, first, headerLength],
    by rwa [length], by rw [total, ← lengths]⟩, whole⟩

private theorem take_eq_self {b other : Bytes} {n : Nat} (short : b.length < n)
    (same : other.take n = b.take n) : other = b := by
  rw [List.take_of_length_le (Nat.le_of_lt short)] at same
  have length := congrArg List.length same
  rw [List.length_take] at length
  rw [← same, List.take_of_length_le (by omega)]

/-- The parser returns for every frame, and what it returns for an IPv4 packet depends on no byte
after the packet's total length. -/
theorem parseEthernet_total (frame : Bytes) (wireLen : UInt32) :
    NoPanic (parseEthernet frame wireLen) ∧
      ∀ l3 other : Bytes, linkLayer frame = .ok (etherTypeIpv4, l3) → l3.headD 0 >>> 4 = 4 →
        20 ≤ headerLength l3 → headerLength l3 ≤ (field16 l3 2).toNat →
        other.take (frame.length - l3.length + (field16 l3 2).toNat) =
          frame.take (frame.length - l3.length + (field16 l3 2).toNat) →
        parseEthernet other wireLen = parseEthernet frame wireLen := by
  refine ⟨parseEthernet_noPanic frame wireLen, ?_⟩
  intro l3 other link version minimal long same
  by_cases short : frame.length < frame.length - l3.length + (field16 l3 2).toNat
  · rw [take_eq_self short same]
  · have within : l3.length ≤ frame.length := by
      obtain ⟨_, _, _, rfl⟩ | ⟨_, _, _, rfl⟩ := linkLayer_eq link <;>
        rw [List.length_drop] <;> omega
    obtain ⟨p, bytes⟩ := exists_ipv4 version minimal long (by omega)
    have stem := linkLayer_take link (field16 l3 2).toNat
    rw [← bytes] at stem
    calc
      parseEthernet other wireLen
        = parseEthernet (other.take (frame.length - l3.length + (field16 l3 2).toNat) ++
            other.drop (frame.length - l3.length + (field16 l3 2).toNat)) wireLen := by
          rw [List.take_append_drop]
      _ = parseEthernet (frame.take (frame.length - l3.length + (field16 l3 2).toNat))
            wireLen := by
          rw [same, parseEthernet_append (.v4 p) stem]
      _ = parseEthernet (frame.take (frame.length - l3.length + (field16 l3 2).toNat) ++
            frame.drop (frame.length - l3.length + (field16 l3 2).toNat)) wireLen := by
          rw [parseEthernet_append (.v4 p) stem]
      _ = parseEthernet frame wireLen := by rw [List.take_append_drop]

/-- A UDP packet from 192.168.50.10, port 41000, to 203.0.113.10, port 161. -/
def probe : Bytes :=
  [0x45, 0x00, 0x00, 0x1e, 0x00, 0x01, 0x00, 0x00, 0x40, 0x11, 0x00, 0x00, 192, 168, 50, 10,
    203, 0, 113, 10, 0xa0, 0x28, 0x00, 0xa1, 0x00, 0x0a, 0x00, 0x00, 0x30, 0x00]

def ethernetIpv4 : Bytes :=
  [0x02, 0, 0, 0, 0, 0x01, 0x02, 0, 0, 0, 0, 0x0a, 0x08, 0x00]

theorem parseEthernet_total_probe :
    parseEthernet (ethernetIpv4 ++ probe ++ [7, 7, 7, 7]) 48 =
      parseEthernet (ethernetIpv4 ++ probe) 48 :=
  (parseEthernet_total (ethernetIpv4 ++ probe) 48).2 probe _ rfl (by decide) (by decide)
    (by decide) (by decide)

end PiAgents.Capture
