import Mathlib.Data.List.Lex
import Mathlib.Order.Basic

/-! Ethernet II, 802.1Q, IPv4/IPv6, TCP/UDP/ICMP parsing, one definition per function of
`packet.rs`. A slice expression that would panic is the fault `panic`. -/

namespace PiAgents.Capture

abbrev Bytes := List UInt8
abbrev Mac := Vector UInt8 6

inductive IpAddr where
  | v4 (octets : Vector UInt8 4)
  | v6 (octets : Vector UInt8 16)
  deriving DecidableEq, Repr

def Mac.ofOctets (a b c d e f : UInt8) : Mac := #v[a, b, c, d, e, f]
def IpAddr.ofOctets (a b c d : UInt8) : IpAddr := .v4 #v[a, b, c, d]

inductive Protocol where
  | tcp
  | udp
  | icmp
  | icmpv6
  | other (number : UInt8)
  deriving DecidableEq, Repr

def tcpFin : UInt8 := 0x01
def tcpSyn : UInt8 := 0x02
def tcpRst : UInt8 := 0x04
def tcpAck : UInt8 := 0x10

structure FiveTuple where
  srcIp : IpAddr
  dstIp : IpAddr
  srcPort : UInt16
  dstPort : UInt16
  protocol : Protocol
  deriving DecidableEq, Repr

inductive Icmp where
  | echoRequest
  | echoReply
  /-- Destination unreachable, carrying the 5-tuple of the packet it rejects. -/
  | unreachable (quoted : FiveTuple)
  | other
  deriving DecidableEq, Repr

structure ParsedPacket where
  srcMac : Mac
  dstMac : Mac
  tuple : FiveTuple
  tcpFlags : UInt8
  wireLen : UInt32
  icmp : Option Icmp
  dnsQuery : Option String
  deriving DecidableEq, Repr

inductive ParseError where
  | truncated
  | notIp
  | badIpHeader
  deriving DecidableEq, Repr

inductive Fault where
  | err (e : ParseError)
  | panic
  deriving DecidableEq, Repr

abbrev Parse := Except Fault

def etherTypeIpv4 : UInt16 := 0x0800
def etherTypeIpv6 : UInt16 := 0x86dd
def etherTypeVlan : UInt16 := 0x8100

/-- `b.get(start..stop)`. -/
def getRange (b : Bytes) (start stop : Nat) : Option Bytes :=
  if start ≤ stop ∧ stop ≤ b.length then some ((b.drop start).take (stop - start)) else none

/-- `b.get(start..)`. -/
def getFrom (b : Bytes) (start : Nat) : Option Bytes :=
  if start ≤ b.length then some (b.drop start) else none

/-- `b[i]`. -/
def index (b : Bytes) (i : Nat) : Parse UInt8 :=
  match b[i]? with
  | some x => .ok x
  | none => .error .panic

/-- `&b[start..stop]`. -/
def slice (b : Bytes) (start stop : Nat) : Parse Bytes :=
  match getRange b start stop with
  | some s => .ok s
  | none => .error .panic

/-- `copy_from_slice` into an array of `n` bytes. -/
def copyFromSlice (n : Nat) (s : Bytes) : Parse (Vector UInt8 n) :=
  if same : s.length = n then .ok ⟨s.toArray, by simpa using same⟩ else .error .panic

/-- `x.clamp(low, high)`, which panics on an empty interval. -/
def clamp (x low high : Nat) : Parse Nat :=
  if high < low then .error .panic else .ok (max low (min x high))

/-- `b.first().ok_or(ParseError::Truncated)`. -/
def firstByte : Bytes → Parse UInt8
  | first :: _ => .ok first
  | [] => .error (.err .truncated)

def be16 (b : Bytes) (start : Nat) : Parse UInt16 :=
  match getRange b start (start + 2) with
  | some [high, low] => .ok (UInt16.ofNat (high.toNat * 256 + low.toNat))
  | _ => .error (.err .truncated)

def mac (b : Bytes) (start : Nat) : Parse Mac :=
  match getRange b start (start + 6) with
  | some s => copyFromSlice 6 s
  | none => .error (.err .truncated)

structure IpLayer where
  src : IpAddr
  dst : IpAddr
  protocol : Protocol
  /-- False for non-first IPv4 fragments, which carry no transport header. -/
  firstFragment : Bool
  payload : Bytes
  deriving DecidableEq, Repr

def protocolFrom (number : UInt8) : Protocol :=
  if number = 6 then .tcp
  else if number = 17 then .udp
  else if number = 1 then .icmp
  else if number = 58 then .icmpv6
  else .other number

def ipv4Addr (b : Bytes) (start : Nat) : Parse IpAddr := do
  let o₀ ← index b start
  let o₁ ← index b (start + 1)
  let o₂ ← index b (start + 2)
  let o₃ ← index b (start + 3)
  return .ofOctets o₀ o₁ o₂ o₃

def parseIpv4 (b : Bytes) : Parse IpLayer := do
  let first ← firstByte b
  if first >>> 4 ≠ 4 then
    throw (.err .badIpHeader)
  let headerLen := (first &&& 0x0f).toNat * 4
  if headerLen < 20 ∨ b.length < headerLen then
    throw (.err .badIpHeader)
  let totalLen ← clamp (← be16 b 2).toNat headerLen b.length
  let fragmentOffset := (← be16 b 6) &&& 0x1fff
  let src ← ipv4Addr b 12
  let dst ← ipv4Addr b 16
  let protocol ← index b 9
  let payload ← slice b headerLen totalLen
  return { src, dst, protocol := protocolFrom protocol, firstFragment := fragmentOffset = 0, payload }

def parseIpv6 (b : Bytes) : Parse IpLayer := do
  if b.length < 40 then
    throw (.err .badIpHeader)
  if (← index b 0) >>> 4 ≠ 6 then
    throw (.err .badIpHeader)
  let src ← copyFromSlice 16 (← slice b 8 24)
  let dst ← copyFromSlice 16 (← slice b 24 40)
  let payloadLen := (← be16 b 4).toNat
  let stop := min (40 + payloadLen) b.length
  let protocol ← index b 6
  let payload ← slice b 40 stop
  -- Extension headers are not walked; such packets count as `other`.
  return { src := .v6 src, dst := .v6 dst, protocol := protocolFrom protocol,
           firstFragment := true, payload }

/-- Embedded IPv4 headers in ICMP errors keep the original total length, which
is larger than what was quoted; the quoted bytes are read as they are. -/
def parseIpv4Embedded (b : Bytes) : Parse IpLayer := do
  let first ← firstByte b
  let headerLen := (first &&& 0x0f).toNat * 4
  if first >>> 4 ≠ 4 ∨ headerLen < 20 ∨ b.length < headerLen then
    throw (.err .badIpHeader)
  let src ← ipv4Addr b 12
  let dst ← ipv4Addr b 16
  let protocol ← index b 9
  let payload ← slice b headerLen b.length
  return { src, dst, protocol := protocolFrom protocol, firstFragment := true, payload }

def unreachableTuple (ip : IpLayer) : FiveTuple :=
  let (srcPort, dstPort) := match ip.protocol, be16 ip.payload 0, be16 ip.payload 2 with
    | .tcp, .ok s, .ok d => (s, d)
    | .udp, .ok s, .ok d => (s, d)
    | _, _, _ => (0, 0)
  { srcIp := ip.src, dstIp := ip.dst, srcPort, dstPort, protocol := ip.protocol }

def parseIcmp (b : Bytes) (v6 : Bool) : Parse Icmp :=
  match b[0]?, b[1]? with
  | some kind, some _ =>
    let (echoRequest, echoReply, unreachable) : UInt8 × UInt8 × UInt8 :=
      if v6 then (128, 129, 1) else (8, 0, 3)
    if kind = echoRequest then .ok .echoRequest
    else if kind = echoReply then .ok .echoReply
    else if kind = unreachable then
      -- ICMP header (8 bytes), then the offending IP header and 8 bytes.
      let embedded := (getFrom b 8).getD []
      match if v6 then parseIpv6 embedded else parseIpv4Embedded embedded with
      | .ok ip => .ok (.unreachable (unreachableTuple ip))
      | .error (.err _) => .ok .other
      | .error .panic => .error .panic
    else .ok .other
  | _, _ => .ok .other

/-- A label byte of a query name, lower-cased. -/
def dnsChar (c : UInt8) : Option Char :=
  let ch := Char.ofNat c.toNat
  if ch.isAlphanum ∨ ch = '-' ∨ ch = '_' then some ch.toLower else none

/-- The label loop of `parse_dns_query`, for so many rounds: none when they do not do, and else the
name, or none where the function returns. All bytes of a name are ASCII, one byte each. -/
def dnsLabels (msg : Bytes) : Nat → Nat → List Char → Option (Option (List Char))
  | 0, _, _ => none
  | fuel + 1, start, name =>
    match msg[start]? with
    | none => some none
    | some byte =>
      let len := byte.toNat
      if len = 0 then some (some name)
      -- Compression pointers never appear in a query's first question.
      else if 63 < len ∨ 253 < name.length + len then some none
      else
        match getRange msg (start + 1) (start + 1 + len) with
        | none => some none
        | some label =>
          let name := if name ≠ [] then name ++ ['.'] else name
          match label.mapM dnsChar with
          | none => some none
          | some chars => dnsLabels msg fuel (start + 1 + len) (name ++ chars)

def parseDnsQuery (msg : Bytes) : Option String := do
  let flags ← (be16 msg 2).toOption
  let questions ← (be16 msg 4).toOption
  if flags &&& 0x8000 ≠ 0 ∨ questions = 0 then
    none
  let name ← (dnsLabels msg (msg.length + 1) 12 []).join
  if name ≠ [] then some (String.ofList name) else none

def parseTransport (packet : ParsedPacket) (payload : Bytes) : Parse ParsedPacket :=
  match packet.tuple.protocol with
  | .tcp =>
    match be16 payload 0, be16 payload 2, payload[13]? with
    | .ok src, .ok dst, some flags =>
      .ok { packet with tuple := { packet.tuple with srcPort := src, dstPort := dst },
                        tcpFlags := flags }
    | _, _, _ => .ok packet
  | .udp =>
    match be16 payload 0, be16 payload 2 with
    | .ok src, .ok dst =>
      let packet := { packet with tuple := { packet.tuple with srcPort := src, dstPort := dst } }
      if dst = 53 then
        .ok { packet with dnsQuery := (getFrom payload 8).bind parseDnsQuery }
      else .ok packet
    | _, _ => .ok packet
  | .icmp => do return { packet with icmp := some (← parseIcmp payload false) }
  | .icmpv6 => do return { packet with icmp := some (← parseIcmp payload true) }
  | .other _ => .ok packet

/-- Parses one Ethernet frame. `wireLen` is the original frame length, which may exceed
`frame.length` when the capture truncated it. -/
def parseEthernet (frame : Bytes) (wireLen : UInt32) : Parse ParsedPacket := do
  let dstMac ← mac frame 0
  let srcMac ← mac frame 6
  let outer ← be16 frame 12
  let (etherType, offset) ← if outer = etherTypeVlan then
      do pure (← be16 frame 16, 18)
    else
      pure (outer, 14)
  let l3 ← match getFrom frame offset with
    | some l3 => .ok l3
    | none => .error (.err .truncated)
  let ip ← if etherType = etherTypeIpv4 then parseIpv4 l3
    else if etherType = etherTypeIpv6 then parseIpv6 l3
    else throw (.err .notIp)
  let packet : ParsedPacket :=
    { srcMac, dstMac, wireLen
      tuple := { srcIp := ip.src, dstIp := ip.dst, srcPort := 0, dstPort := 0,
                 protocol := ip.protocol }
      tcpFlags := 0, icmp := none, dnsQuery := none }
  if ip.firstFragment then parseTransport packet ip.payload else return packet

example : parseEthernet [1, 2, 3, 4, 5] 5 = .error (.err .truncated) := by decide

end PiAgents.Capture
