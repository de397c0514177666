import PiAgents.Lib.Iterators
import PiAgents.Capture.IpPackets

/-! Reader for classic libpcap files with Ethernet link type (`pcapfile.rs`), and the records it
gives back from a file as it was written, with any torn tail. -/

namespace PiAgents.Capture

inductive PcapError where
  | badMagic
  | unsupportedLinkType (linkType : UInt32)
  | truncated
  deriving DecidableEq, Repr

structure PcapRecord where
  /-- Below 2^53: the `i64` never overflows. -/
  timestampUs : Int
  wireLen : UInt32
  data : Bytes
  deriving DecidableEq, Repr

structure PcapReader where
  bytes : Bytes
  cursor : Nat
  bigEndian : Bool
  nanos : Bool
  deriving DecidableEq, Repr

def linktypeEthernet : UInt32 := 1

def u32FromBeBytes (a b c d : UInt8) : UInt32 :=
  UInt32.ofNat (((a.toNat * 256 + b.toNat) * 256 + c.toNat) * 256 + d.toNat)

def u32FromLeBytes (a b c d : UInt8) : UInt32 := u32FromBeBytes d c b a

namespace PcapReader

def u32At (reader : PcapReader) (start : Nat) : Option UInt32 :=
  match getRange reader.bytes start (start + 4) with
  | some [a, b, c, d] =>
      some (if reader.bigEndian then u32FromBeBytes a b c d else u32FromLeBytes a b c d)
  | _ => none

/-- The byte order and the resolution a magic number stands for. -/
def variant (magic : Bytes) : Option (Bool × Bool) :=
  if magic = [0xd4, 0xc3, 0xb2, 0xa1] then some (false, false)
  else if magic = [0xa1, 0xb2, 0xc3, 0xd4] then some (true, false)
  else if magic = [0x4d, 0x3c, 0xb2, 0xa1] then some (false, true)
  else if magic = [0xa1, 0xb2, 0x3c, 0x4d] then some (true, true)
  else none

def new (bytes : Bytes) : Except PcapError PcapReader :=
  match getRange bytes 0 4 with
  | none => .error .truncated
  | some magic =>
      match variant magic with
      | none => .error .badMagic
      | some (bigEndian, nanos) =>
          let reader : PcapReader := { bytes, cursor := 24, bigEndian, nanos }
          match reader.u32At 20 with
          | none => .error .truncated
          | some linkType =>
              if linkType ≠ linktypeEthernet then .error (.unsupportedLinkType linkType)
              else .ok reader

def next (reader : PcapReader) : Option (Except PcapError PcapRecord) × PcapReader :=
  if reader.bytes.length ≤ reader.cursor then (none, reader)
  else
    match reader.u32At reader.cursor, reader.u32At (reader.cursor + 4),
        reader.u32At (reader.cursor + 8), reader.u32At (reader.cursor + 12) with
    | some secs, some frac, some captured, some wireLen =>
        let start := reader.cursor + 16
        match getRange reader.bytes start (start + captured.toNat) with
        | none => (some (.error .truncated), { reader with cursor := reader.bytes.length })
        | some data =>
            let micros : Int := if reader.nanos then frac.toNat / 1000 else frac.toNat
            (some (.ok { timestampUs := secs.toNat * 1000000 + micros, wireLen, data }),
              { reader with cursor := start + captured.toNat })
    | _, _, _, _ => (some (.error .truncated), { reader with cursor := reader.bytes.length })

end PcapReader

open Iterators

/-! Every reader ends. -/

private theorem getRange_bounds {b s : Bytes} {start stop : Nat}
    (read : getRange b start stop = some s) :
    start ≤ stop ∧ stop ≤ b.length := by
  rw [getRange] at read
  split at read
  · assumption
  · cases read

theorem next_item {reader reader' : PcapReader} {item : Except PcapError PcapRecord}
    (given : reader.next = (some item, reader')) :
    ((∃ record, item = .ok record) ∧
        reader'.bytes.length - reader'.cursor + 16 ≤ reader.bytes.length - reader.cursor) ∨
      reader'.next.1 = none := by
  have ended : ({ reader with cursor := reader.bytes.length } : PcapReader).next.1 = none := by
    rw [PcapReader.next, if_pos le_rfl]
  rw [PcapReader.next] at given
  split at given
  · cases given
  · split at given
    · dsimp only at given
      split at given
      · obtain ⟨_, rfl⟩ := Prod.mk.inj given
        exact .inr ended
      · rename_i read
        obtain ⟨same, rfl⟩ := Prod.mk.inj given
        have bounds := getRange_bounds read
        refine .inl ⟨⟨_, (Option.some.inj same).symm⟩, ?_⟩
        dsimp only
        omega
    · obtain ⟨_, rfl⟩ := Prod.mk.inj given
      exact .inr ended

/-! A file as it is written. -/

/-- One captured packet: the seconds and the fraction of its time, what was captured of it and its
length on the wire. -/
structure Captured where
  secs : UInt32
  frac : UInt32
  data : Bytes
  wireLen : UInt32
  length_lt : data.length < 4294967296

def u32ToBeBytes (n : UInt32) : Bytes :=
  [UInt8.ofNat (n.toNat / 16777216), UInt8.ofNat (n.toNat / 65536), UInt8.ofNat (n.toNat / 256),
    UInt8.ofNat n.toNat]

/-- A byte order and a timestamp resolution. -/
structure Variant where
  bigEndian : Bool
  nanos : Bool

namespace Variant

variable (v : Variant)

def u32 (n : UInt32) : Bytes := if v.bigEndian then u32ToBeBytes n else (u32ToBeBytes n).reverse

/-- The magic number, written in the byte order of the file. -/
def magic : Bytes := v.u32 (if v.nanos then 0xa1b23c4d else 0xa1b2c3d4)

/-- The file header: version, time zone, accuracy and snapshot length are not read. -/
def header (unread : Vector UInt8 16) : Bytes :=
  v.magic ++ (unread.toList ++ v.u32 linktypeEthernet)

def lengths (captured : Captured) : Bytes :=
  v.u32 captured.secs ++ (v.u32 captured.frac ++
    (v.u32 (UInt32.ofNat captured.data.length) ++ v.u32 captured.wireLen))

def encoded (captured : Captured) : Bytes := v.lengths captured ++ captured.data

/-- The record a reader owes for a captured packet. -/
def record (captured : Captured) : PcapRecord where
  timestampUs := captured.secs.toNat * 1000000 +
    (if v.nanos then captured.frac.toNat / 1000 else captured.frac.toNat : Nat)
  wireLen := captured.wireLen
  data := captured.data

def reader (bytes : Bytes) (cursor : Nat) : PcapReader where
  bytes := bytes
  cursor := cursor
  bigEndian := v.bigEndian
  nanos := v.nanos

@[simp] theorem reader_bytes (bytes : Bytes) (cursor : Nat) :
    (v.reader bytes cursor).bytes = bytes := rfl

@[simp] theorem reader_cursor (bytes : Bytes) (cursor : Nat) :
    (v.reader bytes cursor).cursor = cursor := rfl

@[simp] theorem u32_length (n : UInt32) : (v.u32 n).length = 4 := by
  rw [u32]
  split <;> rfl

@[simp] theorem lengths_length (captured : Captured) : (v.lengths captured).length = 16 := by
  simp [lengths]

@[simp] theorem encoded_length (captured : Captured) :
    (v.encoded captured).length = 16 + captured.data.length := by
  rw [encoded, List.length_append, lengths_length]

end Variant

theorem u32FromBe_toBe (n : UInt32) :
    u32FromBeBytes (UInt8.ofNat (n.toNat / 16777216)) (UInt8.ofNat (n.toNat / 65536))
      (UInt8.ofNat (n.toNat / 256)) (UInt8.ofNat n.toNat) = n := by
  have bound := n.toNat_lt
  rw [u32FromBeBytes, ← UInt32.toNat_inj, UInt32.toNat_ofNat', UInt8.toNat_ofNat',
    UInt8.toNat_ofNat', UInt8.toNat_ofNat', UInt8.toNat_ofNat']
  omega

private theorem u32At_written {v : Variant} {bytes : Bytes} {start : Nat} {n : UInt32}
    {rest : Bytes}
    (inside : start ≤ bytes.length) (written : bytes.drop start = v.u32 n ++ rest) (cursor : Nat) :
    (v.reader bytes cursor).u32At start = some n := by
  have length := congrArg List.length written
  rw [List.length_drop, List.length_append, Variant.u32_length] at length
  have read : getRange bytes start (start + 4) = some (v.u32 n) := by
    rw [getRange_some (by omega) (by omega), written, Nat.add_sub_cancel_left,
      List.take_left' (v.u32_length n)]
  rw [PcapReader.u32At, Variant.reader, read, Variant.u32]
  cases v.bigEndian with
  | true => exact congrArg some (u32FromBe_toBe n)
  | false => exact congrArg some (u32FromBe_toBe n)

private theorem u32At_missing {reader : PcapReader} {start : Nat}
    (short : reader.bytes.length < start + 4) : reader.u32At start = none := by
  rw [PcapReader.u32At, getRange, if_neg (by omega)]

private theorem lengths_read {v : Variant} {bytes rest : Bytes} {cursor : Nat} {captured : Captured}
    (inside : cursor ≤ bytes.length)
    (written : bytes.drop cursor = v.lengths captured ++ rest) (here : Nat) :
    (v.reader bytes here).u32At cursor = some captured.secs ∧
      (v.reader bytes here).u32At (cursor + 4) = some captured.frac ∧
        (v.reader bytes here).u32At (cursor + 8) = some (UInt32.ofNat captured.data.length) ∧
          (v.reader bytes here).u32At (cursor + 12) = some captured.wireLen := by
  have length := congrArg List.length written
  rw [List.length_drop, List.length_append, Variant.lengths_length] at length
  have after {start : Nat} {n : UInt32} {later : Bytes}
      (field : bytes.drop start = v.u32 n ++ later) : bytes.drop (start + 4) = later := by
    rw [← List.drop_drop, field, List.drop_left' (v.u32_length n)]
  rw [Variant.lengths, List.append_assoc, List.append_assoc, List.append_assoc] at written
  have second := after written
  have third := after second
  have fourth := after third
  exact ⟨u32At_written inside written here, u32At_written (by omega) second here,
    u32At_written (by omega) third here, u32At_written (by omega) fourth here⟩

theorem next_record {v : Variant} {bytes rest : Bytes} {cursor : Nat} {captured : Captured}
    (written : bytes.drop cursor = v.encoded captured ++ rest) :
    (v.reader bytes cursor).next =
      (some (.ok (v.record captured)), v.reader bytes (cursor + (v.encoded captured).length)) := by
  have length := congrArg List.length written
  rw [List.length_drop, List.length_append, Variant.encoded_length] at length
  rw [Variant.encoded, List.append_assoc] at written
  obtain ⟨secs, frac, dataLength, wireLen⟩ := lengths_read (by omega) written cursor
  have captures : (UInt32.ofNat captured.data.length).toNat = captured.data.length := by
    rw [UInt32.toNat_ofNat', Nat.mod_eq_of_lt captured.length_lt]
  have data : getRange bytes (cursor + 16) (cursor + 16 + captured.data.length) =
      some captured.data := by
    rw [getRange_some (by omega) (by omega), ← List.drop_drop, written,
      List.drop_left' (v.lengths_length captured), Nat.add_sub_cancel_left, List.take_left]
  rw [PcapReader.next, Variant.reader_bytes, Variant.reader_cursor, if_neg (by omega), secs, frac,
    dataLength, wireLen]
  dsimp only
  rw [captures, data, Variant.encoded_length, ← Nat.add_assoc]
  cases nanos : v.nanos <;> simp [Variant.record, Variant.reader, nanos]

theorem next_torn {v : Variant} {bytes : Bytes} {cursor : Nat} {captured : Captured}
    (torn : bytes.drop cursor <+: v.encoded captured)
    (proper : bytes.drop cursor ≠ v.encoded captured) (left : cursor < bytes.length) :
    (v.reader bytes cursor).next = (some (.error .truncated), v.reader bytes bytes.length) := by
  have shorter : (bytes.drop cursor).length < (v.encoded captured).length :=
    lt_of_le_of_ne torn.length_le fun same => proper (torn.eq_of_length same)
  rw [List.length_drop, Variant.encoded_length] at shorter
  rw [PcapReader.next, Variant.reader_bytes, Variant.reader_cursor, if_neg (by omega)]
  by_cases short : bytes.length < cursor + 12 + 4
  · rw [u32At_missing (show (v.reader bytes cursor).bytes.length < cursor + 12 + 4 from short)]
    cases (v.reader bytes cursor).u32At cursor <;>
      cases (v.reader bytes cursor).u32At (cursor + 4) <;>
        cases (v.reader bytes cursor).u32At (cursor + 8) <;> rfl
  · have written : bytes.drop cursor = v.lengths captured ++ (bytes.drop cursor).drop 16 := by
      obtain ⟨rest, whole⟩ := torn
      have start : (bytes.drop cursor).take 16 = v.lengths captured := by
        have enough : 16 ≤ (bytes.drop cursor).length := by
          rw [List.length_drop]
          omega
        have starts : (bytes.drop cursor ++ rest).take 16 = (bytes.drop cursor).take 16 :=
          List.take_append_of_le_length enough
        rw [← starts, whole, Variant.encoded, List.take_left' (v.lengths_length captured)]
      rw [← start, List.take_append_drop]
    obtain ⟨secs, frac, dataLength, wireLen⟩ := lengths_read (by omega) written cursor
    have captures : (UInt32.ofNat captured.data.length).toNat = captured.data.length := by
      rw [UInt32.toNat_ofNat', Nat.mod_eq_of_lt captured.length_lt]
    have missing : getRange bytes (cursor + 16) (cursor + 16 + captured.data.length) = none := by
      rw [getRange, if_neg (by omega)]
    rw [secs, frac, dataLength, wireLen]
    dsimp only
    rw [captures, missing]
    rfl

theorem new_bytes {bytes : Bytes} {reader : PcapReader}
    (opened : PcapReader.new bytes = .ok reader) : reader.bytes = bytes := by
  rw [PcapReader.new] at opened
  split at opened
  · cases opened
  · split at opened
    · cases opened
    · dsimp only at opened
      split at opened
      · cases opened
      · split at opened
        · cases opened
        · cases opened
          rfl

theorem next_ended (v : Variant) (bytes : Bytes) :
    (v.reader bytes bytes.length).next = (none, v.reader bytes bytes.length) := if_pos le_rfl

theorem variant_magic (v : Variant) : PcapReader.variant v.magic = some (v.bigEndian, v.nanos) := by
  obtain ⟨bigEndian, nanos⟩ := v
  cases bigEndian <;> cases nanos <;> decide

theorem new_header (v : Variant) (unread : Vector UInt8 16) (rest : Bytes) :
    PcapReader.new (v.header unread ++ rest) = .ok (v.reader (v.header unread ++ rest) 24) := by
  have magicLength : v.magic.length = 4 := v.u32_length _
  have whole : v.header unread ++ rest =
      v.magic ++ (unread.toList ++ (v.u32 linktypeEthernet ++ rest)) := by
    rw [Variant.header, List.append_assoc, List.append_assoc]
  have length : (v.header unread ++ rest).length = 24 + rest.length := by
    rw [whole]
    simp [magicLength]
    omega
  have first : getRange (v.header unread ++ rest) 0 4 = some v.magic := by
    rw [getRange_some (by omega) (by omega), List.drop_zero, whole]
    exact congrArg some (List.take_left' magicLength)
  have linkType : (v.reader (v.header unread ++ rest) 24).u32At 20 = some linktypeEthernet := by
    have after : (v.header unread ++ rest).drop 20 = v.u32 linktypeEthernet ++ rest := by
      rw [whole, ← List.append_assoc]
      exact List.drop_left' (by simp [magicLength])
    exact u32At_written (by omega) after 24
  rw [PcapReader.new, first]
  dsimp only
  rw [variant_magic]
  dsimp only
  rw [Variant.reader] at linkType
  rw [linkType]
  rfl

/-- The records and the torn tail of a file, given back. -/
theorem yields_file {v : Variant} {captured : Captured} {tail : Bytes}
    (torn : tail <+: v.encoded captured) (proper : tail ≠ v.encoded captured)
    (records : List Captured) (before : Bytes) :
    Yields PcapReader.next
      (v.reader (before ++ (records.flatMap v.encoded ++ tail)) before.length)
      (records.map (fun record => .ok (v.record record)) ++
        if tail = [] then [] else [.error .truncated]) := by
  induction records generalizing before with
  | nil =>
      rw [List.flatMap_nil, List.nil_append, List.map_nil, List.nil_append]
      by_cases empty : tail = []
      · rw [if_pos empty, empty, List.append_nil]
        exact .done (next_ended v before)
      · have left : before.length < (before ++ tail).length := by
          rw [List.length_append]
          have some := List.length_pos_iff.mpr empty
          omega
        have rest : (before ++ tail).drop before.length = tail := List.drop_left
        rw [← rest] at torn proper
        have given := next_torn torn proper left
        rw [if_neg empty]
        exact .item given (.done (next_ended v (before ++ tail)))
  | cons record rest ih =>
      have later := ih (before ++ v.encoded record)
      rw [List.length_append, List.append_assoc, ← List.append_assoc (v.encoded record),
        ← List.flatMap_cons] at later
      exact .item (next_record (by rw [List.drop_left, List.flatMap_cons, List.append_assoc])) later

/-- Replay gives exactly what was written and then the torn tail as one error; and whatever the
bytes after an accepted header, it ends soon, with no error before the last item. -/
theorem replay_exact :
    (∀ (v : Variant) (unread : Vector UInt8 16) (records : List Captured) (extra : Captured)
      (tail : Bytes), tail <+: v.encoded extra → tail ≠ v.encoded extra →
      ∃ reader, PcapReader.new (v.header unread ++ (records.flatMap v.encoded ++ tail)) =
          .ok reader ∧
        Yields PcapReader.next reader (records.map (fun record => .ok (v.record record)) ++
          if tail = [] then [] else [.error .truncated])) ∧
      ∀ (bytes : Bytes) (reader : PcapReader), PcapReader.new bytes = .ok reader →
        ∃ items, Yields PcapReader.next reader items ∧ items.length ≤ bytes.length / 16 + 1 ∧
          ∀ item ∈ items.dropLast, ∃ record, item = .ok record := by
  constructor
  · intro v unread records extra tail torn proper
    have length : (v.header unread).length = 24 := by
      have magicLength : v.magic.length = 4 := v.u32_length _
      simp [Variant.header, magicLength]
    have yields := yields_file torn proper records (v.header unread)
    rw [length] at yields
    exact ⟨_, new_header v unread _, yields⟩
  · intro bytes reader opened
    obtain ⟨items, yields, few, good⟩ := exists_yields
      (fun reader : PcapReader => reader.bytes.length - reader.cursor) (show 0 < 16 by omega)
      (fun _ _ _ => next_item) reader
    have same : reader.bytes = bytes := new_bytes opened
    refine ⟨items, yields, le_trans few ?_, good⟩
    rw [same]
    exact Nat.succ_le_succ (Nat.div_le_div_right (Nat.sub_le ..))

/-- A nanosecond file with one whole record and the first ten bytes of another. -/
theorem replay_torn :
    ∃ reader, PcapReader.new ((Variant.mk false true).header (.replicate 16 0) ++
        ([Captured.mk 1 2500 [7, 7] 60 (by decide)].flatMap (Variant.mk false true).encoded ++
          [1, 0, 0, 0, 0, 0, 0, 0, 100, 0])) = .ok reader ∧
      Yields PcapReader.next reader [.ok ⟨1000002, 60, [7, 7]⟩, .error .truncated] := by
  obtain ⟨reader, opened, yields⟩ :=
    replay_exact.1 ⟨false, true⟩ (.replicate 16 0) [⟨1, 2500, [7, 7], 60, by decide⟩]
      ⟨1, 0, List.replicate 100 0, 100, by decide⟩ [1, 0, 0, 0, 0, 0, 0, 0, 100, 0]
      ⟨[0, 0, 100, 0, 0, 0] ++ List.replicate 100 0, rfl⟩ (by decide)
  exact ⟨reader, opened, by simpa [Variant.record] using yields⟩

end PiAgents.Capture
