import PiAgents.Capture.WrittenFields

/-! `decode_fields` gets back what the encoders wrote: every declared field with its value, unless
it has the default one. -/

namespace PiAgents.Capture

open ByteStream (toBeBytes)
open Protobuf (Field varintBytes encodeVarint stringBytes stringBytes_eq_nil)

/-- The closure `varint` of `decode_fields`. It indexes into the bytes, and shifts by at most 63. -/
def varintFrom (v : UInt64) (shift : Nat) : List UInt8 → Option (UInt64 × List UInt8)
  | [] => none
  | byte :: rest =>
      if 64 ≤ shift then none
      else
        let v := v ||| (byte &&& 0x7f).toUInt64 <<< UInt64.ofNat shift
        if byte < 0x80 then some (v, rest) else varintFrom v (shift + 7) rest

structure DecodedField where
  field : UInt32
  wireType : UInt8
  value : List UInt8
  deriving DecidableEq, Repr

def toLeBytes (v : UInt64) : List UInt8 := (toBeBytes 8 v.toNat).reverse

def decodeValue (wireType : UInt8) (b : List UInt8) : Option (List UInt8 × List UInt8) :=
  if wireType = 0 then (varintFrom 0 0 b).map fun (v, b) => (toLeBytes v, b)
  else if wireType = 2 then
    (varintFrom 0 0 b).bind fun (len, b) =>
      if len.toNat ≤ b.length then some (b.take len.toNat, b.drop len.toNat) else none
  else none

/-- Every round takes a byte or more. -/
def decodeRounds : Nat → List UInt8 → Option (List DecodedField)
  | _, [] => some []
  | 0, _ :: _ => none
  | rounds + 1, byte :: b => do
      let (key, b) ← varintFrom 0 0 (byte :: b)
      let wireType := (key &&& 7).toUInt8
      let (value, b) ← decodeValue wireType b
      let later ← decodeRounds rounds b
      return ⟨(key >>> 3).toUInt32, wireType, value⟩ :: later

/-- The decoder of the tests. An index out of range and an unexpected wire type are panics. -/
def decodeFields (b : List UInt8) : Option (List DecodedField) := decodeRounds b.length b

/-- A declared field and its value, before the default ones are left out. -/
inductive Declared where
  | uint (field : UInt32) (v : UInt64)
  | string (field : UInt32) (v : String)
  | message (field : UInt32) (v : List UInt8)

namespace Declared

def number : Declared → UInt32
  | uint field _ | string field _ | message field _ => field

/-- An embedded message has no default. -/
def isDefault : Declared → Bool
  | uint _ v => v = 0
  | string _ v => v = ""
  | message _ _ => false

def decoded : Declared → DecodedField
  | uint field v => ⟨field, 0, toLeBytes v⟩
  | string field v => ⟨field, 2, stringBytes v⟩
  | message field v => ⟨field, 2, v⟩

/-- The field as it stands on the wire. -/
def written : Declared → Field
  | uint field v => ⟨field.toNat, .varint v.toNat⟩
  | string field v => ⟨field.toNat, .delimited (stringBytes v)⟩
  | message field v => ⟨field.toNat, .delimited v⟩

def length : Declared → Nat
  | uint _ _ => 0
  | string _ v => (stringBytes v).length
  | message _ v => v.length

end Declared

private theorem or_shift_toNat {v : UInt64} (n : UInt64) {shift : Nat} (low : v.toNat < 2 ^ shift)
    (small : shift < 64) (room : n.toNat * 2 ^ shift < 2 ^ 64) :
    (v ||| n <<< UInt64.ofNat shift).toNat = v.toNat + n.toNat * 2 ^ shift := by
  have wide : shift < 2 ^ 64 := small.trans (by decide)
  have amount : (UInt64.ofNat shift).toNat % 64 = shift := by
    rw [UInt64.toNat_ofNat', Nat.mod_eq_of_lt wide, Nat.mod_eq_of_lt small]
  rw [UInt64.toNat_or, UInt64.toNat_shiftLeft, amount, Nat.shiftLeft_eq, Nat.mod_eq_of_lt room,
    Nat.or_comm, ← Nat.shiftLeft_eq, ← Nat.shiftLeft_add_eq_or_of_lt low, Nat.add_comm]

private theorem low_bits_toNat {n : Nat} (bound : n < 256) :
    (UInt8.ofNat n &&& 0x7f).toUInt64.toNat = n % 128 := by
  rw [UInt8.toNat_toUInt64, UInt8.toNat_and, UInt8.toNat_ofNat', Nat.mod_eq_of_lt bound]
  exact Nat.and_two_pow_sub_one_eq_mod n 7

private theorem varintFrom_last {n shift : Nat} {v : UInt64} (rest : List UInt8) (small : n < 128)
    (low : v.toNat < 2 ^ shift) (inside : shift < 64) (room : n * 2 ^ shift < 2 ^ 64) :
    varintFrom v shift (UInt8.ofNat n :: rest) =
      some (UInt64.ofNat (v.toNat + n * 2 ^ shift), rest) := by
  have bits : (UInt8.ofNat n &&& 0x7f).toUInt64.toNat = n := by
    rw [low_bits_toNat (small.trans (by decide)), Nat.mod_eq_of_lt small]
  have ends : UInt8.ofNat n < 0x80 := by
    rw [UInt8.lt_iff_toNat_lt, UInt8.toNat_ofNat', Nat.mod_eq_of_lt (small.trans (by decide))]
    exact small
  have sum := or_shift_toNat (UInt8.ofNat n &&& 0x7f).toUInt64 low inside (bits.symm ▸ room)
  rw [bits] at sum
  simp only [varintFrom, if_neg (Nat.not_le.mpr inside), if_pos ends, ← sum, UInt64.ofNat_toNat]

private theorem varintFrom_bytes (rounds n shift : Nat) (v : UInt64) (rest : List UInt8)
    (low : v.toNat < 2 ^ shift) (last : shift + 7 * rounds = 63)
    (room : n * 2 ^ shift < 2 ^ 64) :
    varintFrom v shift (varintBytes (rounds + 1) n ++ rest) =
      some (UInt64.ofNat (v.toNat + n * 2 ^ shift), rest) := by
  induction rounds generalizing n shift v with
  | zero =>
      have edge : shift = 63 := last
      subst edge
      have small : n < 128 := by omega
      rw [varintBytes, if_pos small]
      exact varintFrom_last rest small low (by decide) room
  | succ rounds ih =>
      have inside : shift < 64 := by omega
      by_cases small : n < 128
      · rw [varintBytes, if_pos small]
        exact varintFrom_last rest small low inside room
      · have byte : 128 + n % 128 < 256 := by omega
        have bits : (UInt8.ofNat (128 + n % 128) &&& 0x7f).toUInt64.toNat = n % 128 := by
          rw [low_bits_toNat byte]
          omega
        have goes : ¬ UInt8.ofNat (128 + n % 128) < 0x80 := by
          rw [UInt8.lt_iff_toNat_lt, UInt8.toNat_ofNat', Nat.mod_eq_of_lt byte]
          exact Nat.not_lt.mpr (Nat.le_add_right 128 _)
        have power : 2 ^ (shift + 7) = 2 ^ shift * 128 := Nat.pow_add 2 shift 7
        have parts : n * 2 ^ shift = n % 128 * 2 ^ shift + n / 128 * 2 ^ (shift + 7) := by
          calc n * 2 ^ shift = (n % 128 + 128 * (n / 128)) * 2 ^ shift := by rw [Nat.mod_add_div]
            _ = n % 128 * 2 ^ shift + n / 128 * 2 ^ (shift + 7) := by
                rw [power]
                ring
        have lowRoom : n % 128 * 2 ^ shift < 2 ^ 64 := by omega
        have sum := or_shift_toNat (UInt8.ofNat (128 + n % 128) &&& 0x7f).toUInt64 low inside
          (bits.symm ▸ lowRoom)
        rw [bits] at sum
        have below : v.toNat + n % 128 * 2 ^ shift < 2 ^ (shift + 7) := by
          have part : n % 128 * 2 ^ shift ≤ 127 * 2 ^ shift :=
            Nat.mul_le_mul_right _ (Nat.le_of_lt_succ (Nat.mod_lt n (by decide)))
          omega
        have later := ih (n / 128) (shift + 7) _ (sum ▸ below) (by omega) (by omega)
        rw [sum, Nat.add_assoc, ← parts] at later
        rw [varintBytes, if_neg small, List.cons_append]
        simp only [varintFrom, if_neg (Nat.not_le.mpr inside), if_neg goes]
        exact later

theorem varintFrom_encodeVarint {n : Nat} (bound : n < 2 ^ 64) (rest : List UInt8) :
    varintFrom 0 0 (encodeVarint n ++ rest) = some (UInt64.ofNat n, rest) := by
  have read := varintFrom_bytes 9 n 0 0 rest (by decide) rfl (by omega)
  rw [Nat.pow_zero, Nat.mul_one] at read
  exact read.trans (congrArg (fun m => some (UInt64.ofNat m, rest)) (Nat.zero_add n))

namespace Declared

/-- The field can be written: its number is one, and a string or a message is not longer than the
length prefix can tell. -/
structure Fits (declared : Declared) : Prop where
  number : Writer.FieldNumber declared.number
  length : declared.length < 2 ^ 64

theorem decodeValue_written {declared : Declared} (fits : declared.Fits) (rest : List UInt8) :
    decodeValue (UInt8.ofNat declared.written.value.wireType)
        (declared.written.value.bytes ++ rest) = some (declared.decoded.value, rest) := by
  have delimited : ∀ v : List UInt8, v.length < 2 ^ 64 →
      decodeValue 2 (encodeVarint v.length ++ v ++ rest) = some (v, rest) := by
    intro v bound
    have length : (UInt64.ofNat v.length).toNat = v.length := by
      rw [UInt64.toNat_ofNat', Nat.mod_eq_of_lt bound]
    have inside : v.length ≤ (v ++ rest).length := by
      rw [List.length_append]
      exact Nat.le_add_right _ _
    have wire : ¬ (2 : UInt8) = 0 := by decide
    rw [decodeValue, if_neg wire, if_pos rfl, List.append_assoc, varintFrom_encodeVarint bound]
    simp only [Option.bind_some, length, if_pos inside, List.take_left, List.drop_left]
  cases declared with
  | uint field v =>
      have read := varintFrom_encodeVarint v.toNat_lt rest
      rw [UInt64.ofNat_toNat] at read
      exact congrArg (Option.map _) read
  | string field v => exact delimited (stringBytes v) fits.length
  | message field v => exact delimited v fits.length

theorem wireType_lt (declared : Declared) : declared.written.value.wireType < 8 :=
  Protobuf.wireType_lt _

theorem decoded_eq (declared : Declared) :
    declared.decoded = ⟨declared.number, UInt8.ofNat declared.written.value.wireType,
      declared.decoded.value⟩ := by
  cases declared with
  | uint field v => rfl
  | string field v => rfl
  | message field v => rfl

theorem written_number (declared : Declared) :
    declared.written.number = declared.number.toNat := by
  cases declared with
  | uint field v => rfl
  | string field v => rfl
  | message field v => rfl

private theorem key_parts {declared : Declared} (fits : declared.Fits) :
    ((UInt64.ofNat (8 * declared.written.number + declared.written.value.wireType)) >>>
        3).toUInt32 = declared.number ∧
      ((UInt64.ofNat (8 * declared.written.number + declared.written.value.wireType)) &&&
        7).toUInt8 = UInt8.ofNat declared.written.value.wireType := by
  have small := fits.number.small
  have wire := wireType_lt declared
  rw [written_number]
  generalize declared.written.value.wireType = type at wire ⊢
  generalize declared.number = number at small ⊢
  have key : (UInt64.ofNat (8 * number.toNat + type)).toNat = 8 * number.toNat + type := by
    rw [UInt64.toNat_ofNat', Nat.mod_eq_of_lt (by omega)]
  constructor
  · apply UInt32.toNat.inj
    rw [UInt64.toNat_toUInt32, UInt64.toNat_shiftRight, key, Nat.shiftRight_eq_div_pow]
    change (8 * number.toNat + type) / 8 % 2 ^ 32 = number.toNat
    omega
  · apply UInt8.toNat.inj
    have low := Nat.and_two_pow_sub_one_eq_mod (8 * number.toNat + type) 3
    rw [UInt64.toNat_toUInt8, UInt64.toNat_and, key, UInt8.toNat_ofNat']
    change ((8 * number.toNat + type) &&& (2 ^ 3 - 1)) % 2 ^ 8 = type % 2 ^ 8
    omega

end Declared

theorem decodeRounds_written {declared : List Declared} (fits : ∀ d ∈ declared, d.Fits)
    {rounds : Nat} (enough : declared.length ≤ rounds) :
    decodeRounds rounds (declared.flatMap fun d => d.written.bytes) =
      some (declared.map Declared.decoded) := by
  induction declared generalizing rounds with
  | nil =>
      cases rounds with
      | zero => rfl
      | succ rounds => rfl
  | cons d rest ih =>
      cases rounds with
      | zero => cases enough
      | succ rounds =>
          have fit := fits d List.mem_cons_self
          have small := fit.number.small
          have wire := d.wireType_lt
          have number := d.written_number
          have tag : 8 * d.written.number + d.written.value.wireType < 2 ^ 64 := by omega
          have key := varintFrom_encodeVarint tag
            (d.written.value.bytes ++ rest.flatMap fun d => d.written.bytes)
          have value := Declared.decodeValue_written fit (rest.flatMap fun d => d.written.bytes)
          have parts := Declared.key_parts fit
          have later := ih (fun other member => fits other (List.mem_cons_of_mem _ member))
            (Nat.le_of_succ_le_succ enough)
          have all : ((d :: rest).flatMap fun d => d.written.bytes) =
              encodeVarint (8 * d.written.number + d.written.value.wireType) ++
                (d.written.value.bytes ++ rest.flatMap fun d => d.written.bytes) := by
            rw [List.flatMap_cons, Field.bytes, List.append_assoc]
          rw [all]
          cases first : encodeVarint (8 * d.written.number + d.written.value.wireType) with
          | nil => exact absurd first (Protobuf.varintBytes_nonempty 9 _)
          | cons byte bytes =>
              rw [first, List.cons_append] at key
              rw [List.cons_append, decodeRounds, key]
              simp only [Option.bind_eq_bind, Option.bind_some, parts.1, parts.2, value, later,
                Option.pure_def, List.map_cons]
              rw [← Declared.decoded_eq]

theorem decodeFields_written {declared : List Declared} (fits : ∀ d ∈ declared, d.Fits) :
    decodeFields (declared.flatMap fun d => d.written.bytes) =
      some (declared.map Declared.decoded) := by
  have lengths := Protobuf.fields_length_le (declared.map Declared.written)
  rw [List.length_map, List.flatMap_map] at lengths
  exact decodeRounds_written fits lengths

/-- The declared fields that are not left out. -/
def present (declared : List Declared) : List Declared := declared.filter fun d => !d.isDefault

theorem present_concat (declared : List Declared) (d : Declared) :
    present (declared ++ [d]) = present declared ++ if d.isDefault then [] else [d] := by
  rw [present, present, List.filter_append, List.filter_singleton]
  cases d.isDefault with
  | false => rfl
  | true => rfl

namespace Writer

/-- The bytes are the declared fields in order, without the default ones. The bound is that of the
length of a `Vec`. -/
def Writes (w : Writer) (declared : List Declared) : Prop :=
  w.buf.length < 2 ^ 64 →
    w.buf = (present declared).flatMap (fun d => d.written.bytes) ∧ ∀ d ∈ declared, d.Fits

theorem writes_empty : Writes empty [] := by
  intro _
  exact ⟨rfl, fun d member => absurd member List.not_mem_nil⟩

variable {w : Writer} {declared : List Declared}

theorem Writes.skip (writes : w.Writes declared) {d : Declared} (fits : d.Fits)
    (left : d.isDefault = true) : w.Writes (declared ++ [d]) := by
  intro bound
  rcases writes bound with ⟨written, all⟩
  refine ⟨?_, ?_⟩
  · rw [present_concat, if_pos left, List.append_nil]
    exact written
  · intro other member
    rcases List.mem_append.mp member with earlier | last
    · exact all other earlier
    · exact (List.mem_singleton.mp last).symm ▸ fits

theorem Writes.put (writes : w.Writes declared) {next : Writer} {d : Declared}
    (kept : d.isDefault = false) (grown : w.buf.length + d.length ≤ next.buf.length)
    (number : FieldNumber d.number)
    (written : d.length < 2 ^ 64 → next.buf = w.buf ++ d.written.bytes) :
    next.Writes (declared ++ [d]) := by
  intro bound
  have short : d.length < 2 ^ 64 := by omega
  have earlier : w.buf.length < 2 ^ 64 := by omega
  rcases writes earlier with ⟨before, all⟩
  have kept' : ¬ d.isDefault = true := Bool.eq_false_iff.mp kept
  refine ⟨?_, ?_⟩
  · rw [written short, present_concat, if_neg kept', List.flatMap_append, ← before,
      List.flatMap_singleton]
  · intro other member
    rcases List.mem_append.mp member with old | last
    · exact all other old
    · exact (List.mem_singleton.mp last).symm ▸ ⟨number, short⟩

theorem Writes.uint (writes : w.Writes declared) (field : UInt32) (number : FieldNumber field)
    (v : UInt64) : (w.uint field v).Writes (declared ++ [.uint field v]) := by
  by_cases zero : v = 0
  · have same : w.uint field v = w := by rw [Writer.uint, if_neg (not_not_intro zero)]
    rw [same]
    exact writes.skip ⟨number, show 0 < 2 ^ 64 by decide⟩ (decide_eq_true zero)
  · have kept : (Declared.uint field v).isDefault = false := decide_eq_false zero
    have written := buf_uint w number zero
    apply writes.put kept _ number (fun _ => written)
    rw [written, List.length_append]
    exact Nat.le_add_right _ _

theorem Writes.message (writes : w.Writes declared) (field : UInt32) (number : FieldNumber field)
    (v : List UInt8) : (w.message field v).Writes (declared ++ [.message field v]) := by
  have kept : (Declared.message field v).isDefault = false := rfl
  exact writes.put kept (length_le_message w field v) number fun short => buf_message w number short

theorem Writes.string (writes : w.Writes declared) (field : UInt32) (number : FieldNumber field)
    (v : String) : (w.string field v).Writes (declared ++ [.string field v]) := by
  by_cases empty : v = ""
  · have same : w.string field v = w := by
      have none : stringBytes v = [] := by rw [empty]; rfl
      rw [Writer.string, bytes, if_neg (not_not_intro none)]
    rw [same]
    have fits : (stringBytes v).length < 2 ^ 64 := by rw [empty]; decide
    exact writes.skip ⟨number, fits⟩ (decide_eq_true empty)
  · have nonempty : stringBytes v ≠ [] := by
      intro none
      exact empty (stringBytes_eq_nil none)
    have kept : (Declared.string field v).isDefault = false := decide_eq_false empty
    rw [Writer.string, bytes_eq_message w field nonempty]
    exact writes.put kept (length_le_message w field (stringBytes v)) number
      fun short => buf_message w number short

theorem Writes.decoded (writes : w.Writes declared) (bound : w.buf.length < 2 ^ 64) :
    decodeFields w.buf = some ((present declared).map Declared.decoded) := by
  rcases writes bound with ⟨written, fits⟩
  rw [written]
  exact decodeFields_written fun d member => fits d (List.mem_filter.mp member).1

end Writer

/-- The fields come back in the order of their numbers, each as it was declared, and those with the
default value do not. -/
structure RoundTrip (b : List UInt8) (declared : List Declared) : Prop where
  ascending : (declared.map Declared.number).Pairwise (· < ·)
  decoded : ∃ fields, decodeFields b = some fields ∧
    fields.Pairwise (fun earlier later => earlier.field < later.field) ∧
    (∀ d ∈ declared, d.isDefault = false → d.decoded ∈ fields) ∧
    (∀ d ∈ declared, d.isDefault = true → ∀ field ∈ fields, field.field ≠ d.number) ∧
    (∀ field ∈ fields, ∃ d ∈ declared, d.isDefault = false ∧ field = d.decoded)

theorem decoded_field (d : Declared) : d.decoded.field = d.number := by
  cases d with
  | uint field v => rfl
  | string field v => rfl
  | message field v => rfl

theorem Writer.Writes.roundTrip {w : Writer} {declared : List Declared}
    (writes : w.Writes declared) (bound : w.buf.length < 2 ^ 64)
    (ascending : (declared.map Declared.number).Pairwise (· < ·)) :
    RoundTrip w.buf declared := by
  have distinct : (declared.map Declared.number).Nodup := by
    apply ascending.imp
    intro earlier later order same
    exact UInt32.lt_irrefl later (same ▸ order)
  refine ⟨ascending, _, writes.decoded bound, ?_, ?_, ?_, ?_⟩
  · have kept := (List.pairwise_map.mp ascending).sublist
      (List.filter_sublist (p := fun d => !d.isDefault))
    apply List.pairwise_map.mpr
    apply kept.imp
    intro earlier later order
    rw [decoded_field, decoded_field]
    exact order
  · intro d member kept
    apply List.mem_map_of_mem
    exact List.mem_filter.mpr ⟨member, congrArg Bool.not kept⟩
  · intro d member left field found same
    rcases List.mem_map.mp found with ⟨other, held, rfl⟩
    rcases List.mem_filter.mp held with ⟨declaredHere, kept⟩
    rw [decoded_field] at same
    have one := List.inj_on_of_nodup_map distinct declaredHere member same
    rw [one, left] at kept
    cases kept
  · intro field member
    rcases List.mem_map.mp member with ⟨d, held, rfl⟩
    rcases List.mem_filter.mp held with ⟨declaredHere, kept⟩
    exact ⟨d, declaredHere, (Bool.not_eq_true' _).mp kept, rfl⟩

def envelopeFields (e : Envelope) : List Declared :=
  [.string 1 e.eventId, .string 2 schemaVersion, .string 3 e.gatewayId, .string 4 e.deviceKey,
    .uint 5 e.eventTimeUnixMillis.toUInt64, .uint 6 e.ingestTimeUnixMillis.toUInt64]

def flowEventFields (gatewayId : String) (captureSequence : UInt64) (ingestTimeUnixMillis : Int64)
    (record : FlowRecord) : List Declared :=
  let f := record.flow
  [.message 1
      (encodeEnvelope (flowEnvelope gatewayId captureSequence ingestTimeUnixMillis record)),
    .uint 2 captureSequence, .string 3 (formatMac record.key.deviceMac),
    .string 4 record.ends.srcIp.text, .string 5 record.ends.dstIp.text,
    .uint 6 record.ends.srcPort.toUInt64, .uint 7 record.ends.dstPort.toUInt64,
    .uint 8 (protocolNumber record.key.protocol), .uint 9 (directionNumber f.direction),
    .uint 10 (Int64.ofInt f.firstPacketUs).toUInt64, .uint 11 (Int64.ofInt f.lastPacketUs).toUInt64,
    .uint 12 f.packetsFromDevice.toUInt64, .uint 13 f.packetsToDevice.toUInt64,
    .uint 14 f.bytesFromDevice, .uint 15 f.bytesToDevice, .uint 16 f.tcpSyn.toUInt64,
    .uint 17 f.tcpSynAck.toUInt64, .uint 18 f.tcpRst.toUInt64, .uint 19 f.tcpFin.toUInt64,
    .uint 20 (outcomeNumber record.attemptOutcome), .string 21 (f.dnsQuery.getD ""),
    .uint 22 (if record.continuation then 1 else 0)]

def healthEventFields (h : HealthEvent) : List Declared :=
  [.message 1 (encodeEnvelope h.envelope), .string 2 h.component, .uint 3 h.kind.number,
    .uint 4 h.count, .uint 5 h.firstSequence, .uint 6 h.lastSequence,
    .uint 7 h.firstEventTimeUnixMillis.toUInt64, .uint 8 h.lastEventTimeUnixMillis.toUInt64,
    .string 9 h.detail]

/-- A field is written by the method of its type. -/
def Declared.write (w : Writer) : Declared → Writer
  | .uint field v => w.uint field v
  | .string field v => w.string field v
  | .message field v => w.message field v

theorem Writer.Writes.all {w : Writer} {earlier : List Declared} (writes : w.Writes earlier)
    {declared : List Declared} (numbers : ∀ d ∈ declared, Writer.FieldNumber d.number) :
    (declared.foldl Declared.write w).Writes (earlier ++ declared) := by
  induction declared generalizing w earlier with
  | nil => exact (List.append_nil earlier).symm ▸ writes
  | cons d rest ih =>
      have number := numbers d List.mem_cons_self
      have one : (d.write w).Writes (earlier ++ [d]) := by
        cases d with
        | uint field v => exact writes.uint field number v
        | string field v => exact writes.string field number v
        | message field v => exact writes.message field number v
      have all := ih one fun other member => numbers other (List.mem_cons_of_mem _ member)
      rw [List.append_assoc] at all
      exact all

def fieldNumbers (numbers : List UInt32) : Bool :=
  numbers.all fun n => decide (0 < n.toNat) && decide (n.toNat < 2 ^ 29)

theorem writes_of_fields {declared : List Declared} {numbers : List UInt32}
    (own : declared.map Declared.number = numbers) (legal : fieldNumbers numbers = true) :
    (declared.foldl Declared.write Writer.empty).Writes declared := by
  apply Writer.writes_empty.all
  intro d member
  have listed : d.number ∈ numbers := own ▸ List.mem_map_of_mem member
  have bounds := Bool.and_eq_true_iff.mp (List.all_eq_true.mp legal d.number listed)
  exact ⟨of_decide_eq_true bounds.1, of_decide_eq_true bounds.2⟩

/-- The fields of a message, written in the order of their numbers, come back, and an embedded
message is no longer than the whole. -/
theorem roundTrip_of_fields {declared : List Declared} {numbers : List UInt32}
    (own : declared.map Declared.number = numbers) (ascending : numbers.Pairwise (· < ·))
    (legal : fieldNumbers numbers = true)
    (bound : (declared.foldl Declared.write Writer.empty).buf.length < 2 ^ 64) :
    RoundTrip (declared.foldl Declared.write Writer.empty).buf declared ∧
      ∀ d ∈ declared, d.length < 2 ^ 64 := by
  have writes := writes_of_fields own legal
  exact ⟨writes.roundTrip bound (own ▸ ascending), fun d member => ((writes bound).2 d member).length⟩

theorem envelope_round_trip (e : Envelope) (bound : (encodeEnvelope e).length < 2 ^ 64) :
    RoundTrip (encodeEnvelope e) (envelopeFields e) := by
  have own : (envelopeFields e).map Declared.number = [1, 2, 3, 4, 5, 6] := rfl
  exact (roundTrip_of_fields own (by decide) (by decide) bound).1

theorem flowEvent_round_trip (gatewayId : String) (captureSequence : UInt64)
    (ingestTimeUnixMillis : Int64) (record : FlowRecord)
    (bound : (encodeFlowEvent gatewayId captureSequence ingestTimeUnixMillis
      record).length < 2 ^ 64) :
    RoundTrip (encodeFlowEvent gatewayId captureSequence ingestTimeUnixMillis record)
        (flowEventFields gatewayId captureSequence ingestTimeUnixMillis record) ∧
      RoundTrip (encodeEnvelope
          (flowEnvelope gatewayId captureSequence ingestTimeUnixMillis record))
        (envelopeFields (flowEnvelope gatewayId captureSequence ingestTimeUnixMillis record)) := by
  have own : (flowEventFields gatewayId captureSequence ingestTimeUnixMillis record).map
      Declared.number =
    [1, 2, 3, 4, 5, 6, 7, 8, 9, 10, 11, 12, 13, 14, 15, 16, 17, 18, 19, 20, 21, 22] := rfl
  rcases roundTrip_of_fields own (by decide) (by decide) bound with ⟨whole, parts⟩
  exact ⟨whole, envelope_round_trip _ (parts _ List.mem_cons_self)⟩

theorem healthEvent_round_trip (h : HealthEvent) (bound : (encodeHealthEvent h).length < 2 ^ 64) :
    RoundTrip (encodeHealthEvent h) (healthEventFields h) ∧
      RoundTrip (encodeEnvelope h.envelope) (envelopeFields h.envelope) := by
  have own : (healthEventFields h).map Declared.number = [1, 2, 3, 4, 5, 6, 7, 8, 9] := rfl
  rcases roundTrip_of_fields own (by decide) (by decide) bound with ⟨whole, parts⟩
  exact ⟨whole, envelope_round_trip _ (parts _ List.mem_cons_self)⟩

/-- Both encoders, for every event: a `Vec` is shorter than the bound. -/
theorem encodings_round_trip :
    (∀ (gatewayId : String) (captureSequence : UInt64) (ingestTimeUnixMillis : Int64)
        (record : FlowRecord),
      (encodeFlowEvent gatewayId captureSequence ingestTimeUnixMillis record).length < 2 ^ 64 →
      RoundTrip (encodeFlowEvent gatewayId captureSequence ingestTimeUnixMillis record)
          (flowEventFields gatewayId captureSequence ingestTimeUnixMillis record) ∧
        RoundTrip (encodeEnvelope
            (flowEnvelope gatewayId captureSequence ingestTimeUnixMillis record))
          (envelopeFields (flowEnvelope gatewayId captureSequence ingestTimeUnixMillis record))) ∧
    (∀ h : HealthEvent, (encodeHealthEvent h).length < 2 ^ 64 →
      RoundTrip (encodeHealthEvent h) (healthEventFields h) ∧
        RoundTrip (encodeEnvelope h.envelope) (envelopeFields h.envelope)) := by
  constructor
  · intro gatewayId captureSequence ingestTimeUnixMillis record bound
    exact flowEvent_round_trip gatewayId captureSequence ingestTimeUnixMillis record bound
  · intro h bound
    exact healthEvent_round_trip h bound

/-- A flow from before the epoch, without bytes towards the device. -/
def earlyFlow : FlowRecord where
  key :=
    { deviceMac := .ofOctets 2 0 0 0 0 0x0a
      deviceIp := .ofOctets 192 168 50 10
      remoteIp := .ofOctets 203 0 113 7
      devicePort := 40000
      remotePort := 0
      protocol := .other 47 }
  flow :=
    { firstPacketUs := -1500
      lastPacketUs := -1
      direction := .outbound
      packetsFromDevice := 1
      packetsToDevice := 0
      bytesFromDevice := 0xffffffffffffffff
      bytesToDevice := 0
      tcpSyn := 0
      tcpSynAck := 0
      tcpRst := 0
      tcpFin := 0
      dnsQuery := none
      initiatingSyn := false
      established := false
      rejected := false }
  attemptOutcome := .notApplicable
  continuation := false

def lossReport : HealthEvent where
  envelope := ⟨"gw/7", "gw", "", 1767225600123, 1767225600456⟩
  component := "sensor-spool"
  kind := .spoolLoss
  count := 3
  firstSequence := 0
  lastSequence := 2
  firstEventTimeUnixMillis := -9223372036854775808
  lastEventTimeUnixMillis := 1767225600123
  detail := ""

theorem encodings_round_trip_at_the_edges :
    (RoundTrip (encodeFlowEvent "gw" 0 (-1) earlyFlow) (flowEventFields "gw" 0 (-1) earlyFlow) ∧
      RoundTrip (encodeEnvelope (flowEnvelope "gw" 0 (-1) earlyFlow))
        (envelopeFields (flowEnvelope "gw" 0 (-1) earlyFlow))) ∧
    (RoundTrip (encodeHealthEvent lossReport) (healthEventFields lossReport) ∧
      RoundTrip (encodeEnvelope lossReport.envelope) (envelopeFields lossReport.envelope)) :=
  ⟨encodings_round_trip.1 "gw" 0 (-1) earlyFlow (by decide +kernel),
    encodings_round_trip.2 lossReport (by decide +kernel)⟩

end PiAgents.Capture
