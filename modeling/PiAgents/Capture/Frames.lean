import Mathlib
import PiAgents.Capture.Packet

/-! The frame parser never reaches a panic, and what it makes of a frame that carries a well-formed
IP packet: the layers are read from the packet alone, whatever follows it in the frame. -/

namespace PiAgents.Capture

/-! Parsing without a panic. -/

def NoPanic {α : Type} (parse : Parse α) : Prop := parse ≠ .error .panic

section Rules

variable {α β : Type}

@[simp] theorem noPanic_ok (a : α) : NoPanic (.ok a : Parse α) := by simp [NoPanic]

@[simp] theorem noPanic_err (e : ParseError) : NoPanic (.error (.err e) : Parse α) := by
  simp [NoPanic]

theorem noPanic_bind {parse : Parse α} {next : α → Parse β} (first : NoPanic parse)
    (later : ∀ a, parse = .ok a → NoPanic (next a)) : NoPanic (parse >>= next) := by
  cases parse with
  | ok a => exact later a rfl
  | error fault =>
      intro ends
      apply first
      change Except.error fault = Except.error Fault.panic at ends
      rw [Except.error.inj ends]

theorem noPanic_ite {p : Prop} [Decidable p] {yes no : Parse α} (holds : p → NoPanic yes)
    (fails : ¬p → NoPanic no) : NoPanic (if p then yes else no) := by
  by_cases h : p
  · rw [if_pos h]
    exact holds h
  · rw [if_neg h]
    exact fails h

end Rules

theorem getRange_some {b : Bytes} {start stop : Nat} (ordered : start ≤ stop)
    (inside : stop ≤ b.length) :
    getRange b start stop = some ((b.drop start).take (stop - start)) :=
  if_pos ⟨ordered, inside⟩

theorem getRange_length {b s : Bytes} {start stop : Nat} (read : getRange b start stop = some s) :
    s.length = stop - start := by
  rw [getRange] at read
  split at read
  · rename_i bounds
    rw [← Option.some.inj read, List.length_take, List.length_drop]
    omega
  · cases read

theorem index_noPanic {b : Bytes} {i : Nat} (inside : i < b.length) : NoPanic (index b i) := by
  rw [index, List.getElem?_eq_getElem inside]
  exact noPanic_ok _

theorem slice_ok {b : Bytes} {start stop : Nat} (ordered : start ≤ stop)
    (inside : stop ≤ b.length) :
    slice b start stop = .ok ((b.drop start).take (stop - start)) := by
  rw [slice, getRange_some ordered inside]

private theorem copyFromSlice_noPanic {n : Nat} {s : Bytes} (same : s.length = n) :
    NoPanic (copyFromSlice n s) := by
  rw [copyFromSlice, dif_pos same]
  exact noPanic_ok _

theorem clamp_ok {x low high : Nat} (ordered : low ≤ high) :
    clamp x low high = .ok (max low (min x high)) := if_neg (Nat.not_lt.mpr ordered)

private theorem firstByte_noPanic (b : Bytes) : NoPanic (firstByte b) := by
  cases b with
  | nil => exact noPanic_err _
  | cons first rest => exact noPanic_ok _

private theorem be16_noPanic (b : Bytes) (start : Nat) : NoPanic (be16 b start) := by
  rw [be16]
  split
  · exact noPanic_ok _
  · exact noPanic_err _

private theorem mac_noPanic (b : Bytes) (start : Nat) : NoPanic (mac b start) := by
  rw [mac]
  split
  · rename_i s read
    apply copyFromSlice_noPanic
    have length := getRange_length read
    omega
  · exact noPanic_err _

private theorem ipv4Addr_noPanic {b : Bytes} {start : Nat} (inside : start + 4 ≤ b.length) :
    NoPanic (ipv4Addr b start) :=
  noPanic_bind (index_noPanic (by omega)) fun _ _ =>
    noPanic_bind (index_noPanic (by omega)) fun _ _ =>
      noPanic_bind (index_noPanic (by omega)) fun _ _ =>
        noPanic_bind (index_noPanic (by omega)) fun _ _ => noPanic_ok _

theorem parseIpv4_noPanic (b : Bytes) : NoPanic (parseIpv4 b) := by
  apply noPanic_bind (firstByte_noPanic b)
  intro first _
  apply noPanic_ite (fun _ => noPanic_err _)
  intro _
  apply noPanic_ite (fun _ => noPanic_err _)
  intro fits
  obtain ⟨minimal, inside⟩ : 20 ≤ (first &&& 0x0f).toNat * 4 ∧
      (first &&& 0x0f).toNat * 4 ≤ b.length := by omega
  apply noPanic_bind (be16_noPanic b 2)
  intro total _
  apply noPanic_bind
  · rw [clamp_ok inside]
    exact noPanic_ok _
  intro totalLen clamped
  rw [clamp_ok inside] at clamped
  obtain rfl := Except.ok.inj clamped
  apply noPanic_bind (be16_noPanic b 6)
  intro _ _
  apply noPanic_bind (ipv4Addr_noPanic (by omega))
  intro _ _
  apply noPanic_bind (ipv4Addr_noPanic (by omega))
  intro _ _
  apply noPanic_bind (index_noPanic (by omega))
  intro _ _
  apply noPanic_bind
  · rw [slice_ok (by omega) (by omega)]
    exact noPanic_ok _
  · intro _ _
    exact noPanic_ok _

private theorem ipv6Addr_noPanic {b : Bytes} {start stop : Nat} (sixteen : start + 16 = stop)
    (inside : stop ≤ b.length) :
    NoPanic (slice b start stop >>= copyFromSlice 16) := by
  rw [slice_ok (by omega) inside]
  apply copyFromSlice_noPanic
  rw [List.length_take, List.length_drop]
  omega

theorem noPanic_assoc {α β γ : Type} {parse : Parse α} {next : α → Parse β} {last : β → Parse γ}
    (safe : NoPanic ((parse >>= next) >>= last)) :
    NoPanic (parse >>= fun a => next a >>= last) := by
  rwa [← bind_assoc]

theorem parseIpv6_noPanic (b : Bytes) : NoPanic (parseIpv6 b) := by
  apply noPanic_ite (fun _ => noPanic_err _)
  intro short
  have length : 40 ≤ b.length := by omega
  apply noPanic_bind (index_noPanic (by omega))
  intro first _
  apply noPanic_ite (fun _ => noPanic_err _)
  intro _
  apply noPanic_assoc
  apply noPanic_bind (ipv6Addr_noPanic rfl (by omega))
  intro _ _
  apply noPanic_assoc
  apply noPanic_bind (ipv6Addr_noPanic rfl length)
  intro _ _
  apply noPanic_bind (be16_noPanic b 4)
  intro payloadLen _
  apply noPanic_bind (index_noPanic (by omega))
  intro _ _
  apply noPanic_bind
  · rw [slice_ok (by omega) (Nat.min_le_right _ _)]
    exact noPanic_ok _
  · intro _ _
    exact noPanic_ok _

theorem parseIpv4Embedded_noPanic (b : Bytes) : NoPanic (parseIpv4Embedded b) := by
  apply noPanic_bind (firstByte_noPanic b)
  intro first _
  apply noPanic_ite (fun _ => noPanic_err _)
  intro fits
  obtain ⟨minimal, inside⟩ : 20 ≤ (first &&& 0x0f).toNat * 4 ∧
      (first &&& 0x0f).toNat * 4 ≤ b.length := by omega
  apply noPanic_bind (ipv4Addr_noPanic (by omega))
  intro _ _
  apply noPanic_bind (ipv4Addr_noPanic (by omega))
  intro _ _
  apply noPanic_bind (index_noPanic (by omega))
  intro _ _
  apply noPanic_bind
  · rw [slice_ok inside le_rfl]
    exact noPanic_ok _
  · intro _ _
    exact noPanic_ok _

theorem parseIcmp_noPanic (b : Bytes) (v6 : Bool) : NoPanic (parseIcmp b v6) := by
  have quoted : NoPanic (if v6 = true then parseIpv6 ((getFrom b 8).getD [])
      else parseIpv4Embedded ((getFrom b 8).getD [])) :=
    noPanic_ite (fun _ => parseIpv6_noPanic _) fun _ => parseIpv4Embedded_noPanic _
  rw [parseIcmp]
  split
  · apply noPanic_ite (fun _ => noPanic_ok _)
    intro _
    apply noPanic_ite (fun _ => noPanic_ok _)
    intro _
    apply noPanic_ite _ (fun _ => noPanic_ok _)
    intro _
    dsimp only
    generalize (if v6 = true then parseIpv6 ((getFrom b 8).getD [])
      else parseIpv4Embedded ((getFrom b 8).getD [])) = parsed at quoted
    split
    · exact noPanic_ok _
    · exact noPanic_ok _
    · exact absurd rfl quoted
  · exact noPanic_ok _

theorem parseTransport_noPanic (packet : ParsedPacket) (payload : Bytes) :
    NoPanic (parseTransport packet payload) := by
  rw [parseTransport]
  split
  · split
    · exact noPanic_ok _
    · exact noPanic_ok _
  · split
    · exact noPanic_ite (fun _ => noPanic_ok _) fun _ => noPanic_ok _
    · exact noPanic_ok _
  · exact noPanic_bind (parseIcmp_noPanic payload false) fun _ _ => noPanic_ok _
  · exact noPanic_bind (parseIcmp_noPanic payload true) fun _ _ => noPanic_ok _
  · exact noPanic_ok _

/-! The layers of a frame. -/

/-- The ether type of a frame and the bytes after its link header. -/
def linkLayer (frame : Bytes) : Parse (UInt16 × Bytes) := do
  let outer ← be16 frame 12
  if outer = etherTypeVlan then
    let inner ← be16 frame 16
    return (inner, frame.drop 18)
  else
    return (outer, frame.drop 14)

def ipLayer (etherType : UInt16) (l3 : Bytes) : Parse IpLayer :=
  if etherType = etherTypeIpv4 then parseIpv4 l3
  else if etherType = etherTypeIpv6 then parseIpv6 l3
  else .error (.err .notIp)

def IpLayer.packet (ip : IpLayer) (srcMac dstMac : Mac) (wireLen : UInt32) : ParsedPacket where
  srcMac := srcMac
  dstMac := dstMac
  tuple := ⟨ip.src, ip.dst, 0, 0, ip.protocol⟩
  tcpFlags := 0
  wireLen := wireLen
  icmp := none
  dnsQuery := none

def transportLayer (packet : ParsedPacket) (ip : IpLayer) : Parse ParsedPacket :=
  if ip.firstFragment then parseTransport packet ip.payload else .ok packet

theorem be16_inside {b : Bytes} {start : Nat} {n : UInt16} (read : be16 b start = .ok n) :
    start + 2 ≤ b.length := by
  rw [be16, getRange] at read
  split at read
  · rename_i some
    split at some
    · rename_i bounds
      exact bounds.2
    · cases some
  · cases read

theorem getFrom_inside {b : Bytes} {start : Nat} (inside : start ≤ b.length) :
    getFrom b start = some (b.drop start) := if_pos inside

@[simp] theorem ok_bind {α β : Type} (a : α) (next : α → Parse β) :
    Except.ok a >>= next = next a := rfl

@[simp] theorem error_bind {α β : Type} (fault : Fault) (next : α → Parse β) :
    Except.error fault >>= next = .error fault := rfl

theorem ipLayer_bind (etherType : UInt16) (l3 : Bytes) (next : IpLayer → Parse ParsedPacket) :
    ipLayer etherType l3 >>= next =
      if etherType = etherTypeIpv4 then parseIpv4 l3 >>= next
      else if etherType = etherTypeIpv6 then parseIpv6 l3 >>= next
      else throw (.err .notIp) >>= next := by
  by_cases v4 : etherType = etherTypeIpv4
  · rw [ipLayer, if_pos v4, if_pos v4]
  · by_cases v6 : etherType = etherTypeIpv6
    · rw [ipLayer, if_neg v4, if_neg v4, if_pos v6, if_pos v6]
    · rw [ipLayer, if_neg v4, if_neg v4, if_neg v6, if_neg v6]
      rfl

theorem parseEthernet_eq (frame : Bytes) (wireLen : UInt32) :
    parseEthernet frame wireLen = (do
      let dstMac ← mac frame 0
      let srcMac ← mac frame 6
      let link ← linkLayer frame
      let ip ← ipLayer link.1 link.2
      transportLayer (ip.packet srcMac dstMac wireLen) ip) := by
  rw [parseEthernet, linkLayer]
  cases mac frame 0 with
  | error _ => rfl
  | ok dstMac =>
      cases mac frame 6 with
      | error _ => rfl
      | ok srcMac =>
          cases outer : be16 frame 12 with
          | error _ => rfl
          | ok etherType =>
              by_cases tagged : etherType = etherTypeVlan
              · cases inner : be16 frame 16 with
                | error _ => simp only [ok_bind, error_bind, tagged, if_true]
                | ok innerType =>
                    simp only [ok_bind, pure_bind, tagged, if_true,
                      getFrom_inside (be16_inside inner), ipLayer_bind]
                    rfl
              · simp only [ok_bind, pure_bind, tagged, if_false, getFrom_inside (be16_inside outer),
                  ipLayer_bind]
                rfl

theorem linkLayer_noPanic (frame : Bytes) : NoPanic (linkLayer frame) := by
  apply noPanic_bind (be16_noPanic frame 12)
  intro outer _
  apply noPanic_ite _ fun _ => noPanic_ok _
  intro _
  exact noPanic_bind (be16_noPanic frame 16) fun _ _ => noPanic_ok _

theorem ipLayer_noPanic (etherType : UInt16) (l3 : Bytes) : NoPanic (ipLayer etherType l3) :=
  noPanic_ite (fun _ => parseIpv4_noPanic l3) fun _ =>
    noPanic_ite (fun _ => parseIpv6_noPanic l3) fun _ => noPanic_err _

theorem parseEthernet_noPanic (frame : Bytes) (wireLen : UInt32) :
    NoPanic (parseEthernet frame wireLen) := by
  rw [parseEthernet_eq]
  apply noPanic_bind (mac_noPanic frame 0)
  intro dstMac _
  apply noPanic_bind (mac_noPanic frame 6)
  intro srcMac _
  apply noPanic_bind (linkLayer_noPanic frame)
  intro link _
  apply noPanic_bind (ipLayer_noPanic link.1 link.2)
  intro ip _
  exact noPanic_ite (fun _ => parseTransport_noPanic _ _) fun _ => noPanic_ok _

end PiAgents.Capture
