import PiAgents.Lib.ByteStream

/-! The wire format of protocol buffers, version 3, without groups: variable-length integers,
tagged fields, and a parser that gets back the fields of an encoding. -/

namespace PiAgents.Protobuf

open ByteStream

/-- What a field holds. Fixed-width values are left as bytes. -/
inductive Value where
  | varint (n : Nat)
  | fixed64 (bytes : List UInt8)
  | delimited (bytes : List UInt8)
  | fixed32 (bytes : List UInt8)

structure Field where
  number : Nat
  value : Value

/-- Seven bits at a time, the lowest first. Every byte but the last has the high bit. -/
def varintBytes : Nat → Nat → List UInt8
  | 0, _ => []
  | rounds + 1, n =>
      if n < 128 then [UInt8.ofNat n] else UInt8.ofNat (128 + n % 128) :: varintBytes rounds (n / 128)

/-- An integer of 64 bits takes at most ten bytes. -/
def encodeVarint (n : Nat) : List UInt8 := varintBytes 10 n

def readVarintBytes : Nat → Reader Nat
  | 0 => failure
  | rounds + 1 => do
      let byte ← readByte
      if byte.toNat < 128 then return byte.toNat
      else do
        let high ← readVarintBytes rounds
        return byte.toNat % 128 + 128 * high

def readVarint : Reader Nat := do
  let n ← readVarintBytes 10
  return n % 2 ^ 64

/-- A length is an `int`, and a negative one is refused. -/
def readDelimited : Reader (List UInt8) := do
  let n ← readVarint
  if n % 2 ^ 32 < 2 ^ 31 then readBytes (n % 2 ^ 32) else failure

/-- A group fails (wire types 3 and 4), also an unknown one, which a full parser skips. -/
def readValue (wireType : Nat) : Reader Value :=
  match wireType with
  | 0 => do
      let n ← readVarint
      return .varint n
  | 1 => do
      let bytes ← readBytes 8
      return .fixed64 bytes
  | 2 => do
      let bytes ← readDelimited
      return .delimited bytes
  | 5 => do
      let bytes ← readBytes 4
      return .fixed32 bytes
  | _ => failure

/-- The field number 0 is refused. -/
def readField : Reader Field := do
  let tag ← readVarint
  if tag % 2 ^ 32 / 8 = 0 then failure
  else do
    let value ← readValue (tag % 8)
    return ⟨tag % 2 ^ 32 / 8, value⟩

/-- Every field takes a byte or more, so there are no more fields than bytes. -/
def readFields : Nat → List UInt8 → Option (List Field)
  | _, [] => some []
  | 0, _ :: _ => none
  | rounds + 1, byte :: bytes => do
      let (field, rest) ← readField (byte :: bytes)
      let later ← readFields rounds rest
      return field :: later

def parseFields (bytes : List UInt8) : Option (List Field) := readFields bytes.length bytes

/-- A string field that is not UTF-8 is refused. -/
def parseString (bytes : List UInt8) : Option String := String.fromUTF8? ⟨bytes.toArray⟩

def stringBytes (s : String) : List UInt8 := s.toUTF8.data.toList

def Value.wireType : Value → Nat
  | .varint _ => 0
  | .fixed64 _ => 1
  | .delimited _ => 2
  | .fixed32 _ => 5

def Value.bytes : Value → List UInt8
  | .varint n => encodeVarint n
  | .delimited bytes => encodeVarint bytes.length ++ bytes
  | .fixed64 bytes | .fixed32 bytes => bytes

def Field.bytes (field : Field) : List UInt8 :=
  encodeVarint (8 * field.number + field.value.wireType) ++ field.value.bytes

/-- The value has the size of its wire type. -/
def Value.Fits : Value → Prop
  | .varint n => n < 2 ^ 64
  | .delimited bytes => bytes.length < 2 ^ 31
  | .fixed64 bytes => bytes.length = 8
  | .fixed32 bytes => bytes.length = 4

structure Field.Fits (field : Field) : Prop where
  positive : 0 < field.number
  small : field.number < 2 ^ 29
  value : field.value.Fits

private theorem reads_varintBytes {rounds n : Nat} (bound : n < 128 ^ (rounds + 1)) :
    Reads (readVarintBytes (rounds + 1)) (varintBytes (rounds + 1) n) n := by
  induction rounds generalizing n with
  | zero =>
      have small : n < 128 := by omega
      have byte : (UInt8.ofNat n).toNat = n := UInt8.toNat_ofNat_of_lt' (show _ < 256 by omega)
      rw [varintBytes, if_pos small]
      apply (reads_byte _).last
      rw [byte, if_pos small]
  | succ rounds ih =>
      by_cases small : n < 128
      · have byte : (UInt8.ofNat n).toNat = n := UInt8.toNat_ofNat_of_lt' (show _ < 256 by omega)
        rw [varintBytes, if_pos small]
        apply (reads_byte _).last
        rw [byte, if_pos small]
      · have byte : (UInt8.ofNat (128 + n % 128)).toNat = 128 + n % 128 := UInt8.toNat_ofNat_of_lt' (show _ < 256 by omega)
        have more : ¬ 128 + n % 128 < 128 := by omega
        have high : n / 128 < 128 ^ (rounds + 1) := by
          rw [Nat.pow_succ] at bound
          exact Nat.div_lt_of_lt_mul (Nat.mul_comm _ _ ▸ bound)
        have whole : (128 + n % 128) % 128 + 128 * (n / 128) = n := by omega
        rw [varintBytes, if_neg small]
        change Reads _ ([UInt8.ofNat (128 + n % 128)] ++ varintBytes (rounds + 1) (n / 128)) n
        apply (reads_byte _).bind
        rw [byte, if_neg more]
        apply (ih high).last
        rw [whole]

theorem reads_varint {n : Nat} (bound : n < 2 ^ 64) : Reads readVarint (encodeVarint n) n := by
  have fits : n < 128 ^ (9 + 1) := bound.trans (by decide)
  apply (reads_varintBytes fits).last
  rw [Nat.mod_eq_of_lt bound]

private theorem reads_delimited {bytes : List UInt8} (bound : bytes.length < 2 ^ 31) :
    Reads readDelimited (encodeVarint bytes.length ++ bytes) bytes := by
  have wide : bytes.length < 2 ^ 32 := bound.trans (by decide)
  apply (reads_varint (wide.trans (by decide))).bind
  rw [Nat.mod_eq_of_lt wide, if_pos bound]
  exact reads_bytes bytes

theorem reads_value {value : Value} (fits : value.Fits) :
    Reads (readValue value.wireType) value.bytes value := by
  cases value with
  | varint n => exact (reads_varint fits).last rfl
  | delimited bytes => exact (reads_delimited fits).last rfl
  | fixed64 bytes =>
      have read := reads_bytes bytes
      rw [show bytes.length = 8 from fits] at read
      exact read.last rfl
  | fixed32 bytes =>
      have read := reads_bytes bytes
      rw [show bytes.length = 4 from fits] at read
      exact read.last rfl

theorem wireType_lt (value : Value) : value.wireType < 8 := by
  cases value with
  | varint n => exact show 0 < 8 by decide
  | fixed64 bytes => exact show 1 < 8 by decide
  | delimited bytes => exact show 2 < 8 by decide
  | fixed32 bytes => exact show 5 < 8 by decide

theorem reads_field {field : Field} (fits : field.Fits) : Reads readField field.bytes field := by
  have type := wireType_lt field.value
  have small := fits.small
  have positive := fits.positive
  have tag : 8 * field.number + field.value.wireType < 2 ^ 32 := by omega
  have number : (8 * field.number + field.value.wireType) % 2 ^ 32 / 8 = field.number := by omega
  have wire : (8 * field.number + field.value.wireType) % 8 = field.value.wireType := by omega
  have nonzero : ¬ field.number = 0 := by omega
  apply (reads_varint (tag.trans (by decide))).bind
  rw [number, if_neg nonzero, wire]
  exact (reads_value fits.value).last rfl

theorem varintBytes_nonempty (rounds n : Nat) : varintBytes (rounds + 1) n ≠ [] := by
  rw [varintBytes]
  split
  · exact List.cons_ne_nil _ _
  · exact List.cons_ne_nil _ _

theorem readFields_bytes {fields : List Field} (fits : ∀ field ∈ fields, field.Fits) {rounds : Nat}
    (enough : fields.length ≤ rounds) :
    readFields rounds (fields.flatMap Field.bytes) = some fields := by
  induction fields generalizing rounds with
  | nil =>
      cases rounds with
      | zero => rfl
      | succ rounds => rfl
  | cons field rest ih =>
      cases rounds with
      | zero => cases enough
      | succ rounds =>
          have read := reads_field (fits field (List.mem_cons_self ..))
            (rest.flatMap Field.bytes)
          have later := ih (fun other member => fits other (List.mem_cons_of_mem _ member))
            (Nat.le_of_succ_le_succ enough)
          rw [List.flatMap_cons]
          cases first : field.bytes with
          | nil =>
              have empty := (List.append_eq_nil_iff.mp first).1
              exact absurd empty (varintBytes_nonempty 9 _)
          | cons byte bytes =>
              rw [first, List.cons_append] at read
              rw [List.cons_append, readFields, read]
              simp only [Option.bind_eq_bind, Option.bind_some, later, Option.pure_def]

theorem fields_length_le (fields : List Field) :
    fields.length ≤ (fields.flatMap Field.bytes).length := by
  induction fields with
  | nil => exact Nat.le_refl _
  | cons field rest ih =>
      have nonempty : 0 < field.bytes.length := by
        apply List.length_pos_iff.mpr
        intro empty
        exact varintBytes_nonempty 9 _ (List.append_eq_nil_iff.mp empty).1
      rw [List.flatMap_cons, List.length_append, List.length_cons]
      omega

theorem parseFields_bytes {fields : List Field} (fits : ∀ field ∈ fields, field.Fits) :
    parseFields (fields.flatMap Field.bytes) = some fields :=
  readFields_bytes fits (fields_length_le fields)

theorem parseString_stringBytes (s : String) : parseString (stringBytes s) = some s := by
  have bytes : (⟨(stringBytes s).toArray⟩ : ByteArray) = s.toByteArray := by
    rw [stringBytes, Array.toArray_toList]
    rfl
  have valid : s.toByteArray.IsValidUTF8 := s.isValidUTF8
  rw [parseString, bytes, String.fromUTF8?, dif_pos valid]
  rfl

theorem stringBytes_eq_nil {s : String} (none : stringBytes s = []) : s = "" := by
  have parsed := parseString_stringBytes s
  rw [none] at parsed
  exact (Option.some.inj ((parseString_stringBytes "").symm.trans parsed)).symm

end PiAgents.Protobuf
