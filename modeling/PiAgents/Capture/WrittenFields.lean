import PiAgents.Capture.Proto

/-! What the hand-written encoder puts on the wire: a sequence of protobuf fields, which a parser
merges into its message one after another. -/

namespace PiAgents.Capture

open Protobuf

private theorem low_byte_or (n : Nat) : UInt8.ofNat n ||| 0x80 = UInt8.ofNat (128 + n % 128) := by
  have table : ∀ low < 256, low ||| 128 = 128 + low % 128 := by decide +kernel
  have byte : n % 256 < 256 := Nat.mod_lt _ (by decide)
  have low : n % 256 % 128 = n % 128 := Nat.mod_mod_of_dvd n (by decide)
  have small : 128 + n % 128 < 256 := by omega
  apply UInt8.toNat.inj
  rw [UInt8.toNat_or, UInt8.toNat_ofNat', UInt8.toNat_ofNat', Nat.mod_eq_of_lt small]
  exact (table (n % 256) byte).trans (congrArg (128 + ·) low)

namespace Writer

@[simp] theorem buf_empty : empty.buf = [] := rfl

@[simp] theorem buf_push (w : Writer) (byte : UInt8) : (w.push byte).buf = w.buf ++ [byte] := rfl

@[simp] theorem buf_extend (w : Writer) (bytes : List UInt8) :
    (w.extend bytes).buf = w.buf ++ bytes := rfl

private theorem buf_varintLoop (rounds : Nat) (w : Writer) (v : Nat) :
    (varintLoop rounds w v).buf = w.buf ++ varintBytes rounds v := by
  induction rounds generalizing w v with
  | zero => rw [varintLoop, varintBytes, List.append_nil]
  | succ rounds ih =>
      rw [varintLoop, varintBytes]
      by_cases more : 0x80 ≤ v
      · rw [if_pos more, if_neg (Nat.not_lt.mpr more), ih, buf_push, List.append_assoc, low_byte_or,
          Nat.shiftRight_eq_div_pow]
        rfl
      · rw [if_neg more, if_pos (Nat.lt_of_not_ge more), buf_push]

@[simp] theorem buf_varint (w : Writer) (v : UInt64) :
    (w.varint v).buf = w.buf ++ encodeVarint v.toNat :=
  buf_varintLoop 10 w v.toNat

private theorem tag_toNat {field : UInt32} {wireType : UInt8} (small : field.toNat < 2 ^ 29)
    (type : wireType.toNat < 8) :
    (field.toUInt64 <<< 3 ||| wireType.toUInt64).toNat = 8 * field.toNat + wireType.toNat := by
  have wide : field.toNat * 2 ^ 3 < 2 ^ 64 := by omega
  have shifted : (field.toUInt64 <<< 3).toNat = field.toNat <<< 3 := by
    rw [UInt64.toNat_shiftLeft, UInt32.toNat_toUInt64, Nat.shiftLeft_eq, Nat.shiftLeft_eq]
    exact Nat.mod_eq_of_lt wide
  calc (field.toUInt64 <<< 3 ||| wireType.toUInt64).toNat
      = field.toNat <<< 3 ||| wireType.toNat := by
        rw [UInt64.toNat_or, shifted, UInt8.toNat_toUInt64]
    _ = field.toNat <<< 3 + wireType.toNat := (Nat.shiftLeft_add_eq_or_of_lt type _).symm
    _ = 8 * field.toNat + wireType.toNat := by rw [Nat.shiftLeft_eq, Nat.mul_comm]

/-- A number that fields can have. -/
structure FieldNumber (field : UInt32) : Prop where
  positive : 0 < field.toNat
  small : field.toNat < 2 ^ 29

theorem buf_tag (w : Writer) {field : UInt32} (number : FieldNumber field) {wireType : UInt8}
    (type : wireType.toNat < 8) :
    (w.tag field wireType).buf = w.buf ++ encodeVarint (8 * field.toNat + wireType.toNat) := by
  rw [tag, buf_varint, tag_toNat number.small type]

theorem buf_uint (w : Writer) {field : UInt32} (number : FieldNumber field) {v : UInt64}
    (nonzero : v ≠ 0) :
    (w.uint field v).buf = w.buf ++ Field.bytes ⟨field.toNat, .varint v.toNat⟩ := by
  rw [uint, if_pos nonzero, buf_varint, buf_tag w number (by decide), List.append_assoc]
  rfl

theorem buf_message (w : Writer) {field : UInt32} (number : FieldNumber field) {v : List UInt8}
    (bound : v.length < 2 ^ 64) :
    (w.message field v).buf = w.buf ++ Field.bytes ⟨field.toNat, .delimited v⟩ := by
  have length : (UInt64.ofNat v.length).toNat = v.length := by
    rw [UInt64.toNat_ofNat', Nat.mod_eq_of_lt bound]
  rw [message, buf_extend, buf_varint, buf_tag w number (by decide), length, List.append_assoc,
    List.append_assoc]
  rfl

theorem bytes_eq_message (w : Writer) (field : UInt32) {v : List UInt8} (nonempty : v ≠ []) :
    w.bytes field v = w.message field v := by
  rw [bytes, if_pos nonempty, message]

theorem length_le_message (w : Writer) (field : UInt32) (v : List UInt8) :
    w.buf.length + v.length ≤ (w.message field v).buf.length := by
  rw [message, buf_extend, buf_varint, tag, buf_varint]
  simp only [List.length_append]
  omega

/-- Read as fields and merged into the initial message, the bytes give this message. The bound is
that of a Java array. -/
structure Parses {μ : Type} (setField : μ → Field → Option μ) (initial : μ) (bytes : List UInt8)
    (message : μ) (fields : List Field) : Prop where
  written : fields.flatMap Field.bytes = bytes
  merged : fields.foldlM setField initial = some message
  fits : ∀ field ∈ fields, field.Fits

def Carries {μ : Type} (setField : μ → Field → Option μ) (initial : μ) (w : Writer)
    (message : μ) : Prop :=
  w.buf.length < 2 ^ 31 → ∃ fields, Parses setField initial w.buf message fields

section Carries

variable {μ : Type} {setField : μ → Field → Option μ} {initial read : μ} {w : Writer}

theorem carries_empty : Carries setField initial empty initial := by
  intro _
  exact ⟨[], rfl, rfl, fun field member => absurd member List.not_mem_nil⟩

theorem Parses.concat {bytes : List UInt8} {fields : List Field}
    (parses : Parses setField initial bytes read fields) {field : Field} (fits : field.Fits)
    {next : μ} (sets : setField read field = some next) :
    Parses setField initial (bytes ++ field.bytes) next (fields ++ [field]) := by
  constructor
  · rw [List.flatMap_append, parses.written, List.flatMap_singleton]
  · rw [List.foldlM_append, parses.merged]
    change List.foldlM setField read [field] = some next
    rw [List.foldlM_cons, sets]
    rfl
  · intro other member
    rcases List.mem_append.mp member with earlier | last
    · exact parses.fits other earlier
    · exact (List.mem_singleton.mp last).symm ▸ fits

theorem Carries.uint (carries : Carries setField initial w read) (field : UInt32)
    (number : FieldNumber field) (put : μ → Nat → μ) (skipped : put read 0 = read)
    (sets : ∀ m n, setField m ⟨field.toNat, .varint n⟩ = some (put m n)) (v : UInt64) :
    Carries setField initial (w.uint field v) (put read v.toNat) := by
  by_cases zero : v = 0
  · have same : w.uint field v = w := by rw [Writer.uint, if_neg (not_not_intro zero)]
    rw [same, zero]
    exact skipped.symm ▸ carries
  · intro bound
    rw [buf_uint w number zero] at bound ⊢
    have earlier : w.buf.length < 2 ^ 31 := by
      rw [List.length_append] at bound
      omega
    have fits : Field.Fits ⟨field.toNat, .varint v.toNat⟩ :=
      ⟨number.positive, number.small, v.toNat_lt⟩
    rcases carries earlier with ⟨fields, parses⟩
    exact ⟨_, parses.concat fits (sets read v.toNat)⟩

theorem Carries.message (carries : Carries setField initial w read) (field : UInt32)
    (number : FieldNumber field) {v : List UInt8} {next : μ}
    (sets : v.length < 2 ^ 31 → setField read ⟨field.toNat, .delimited v⟩ = some next) :
    Carries setField initial (w.message field v) next := by
  intro bound
  have parts := length_le_message w field v
  have short : v.length < 2 ^ 31 := by omega
  have earlier : w.buf.length < 2 ^ 31 := by omega
  have fits : Field.Fits ⟨field.toNat, .delimited v⟩ := ⟨number.positive, number.small, short⟩
  rcases carries earlier with ⟨fields, parses⟩
  rw [buf_message w number (short.trans (by decide))]
  exact ⟨_, parses.concat fits (sets short)⟩

theorem Carries.string (carries : Carries setField initial w read) (field : UInt32)
    (number : FieldNumber field) (put : μ → String → μ) (skipped : put read "" = read)
    (sets : ∀ m b, setField m ⟨field.toNat, .delimited b⟩ = (parseString b).map (put m))
    (v : String) :
    Carries setField initial (w.string field v) (put read v) := by
  by_cases empty : stringBytes v = []
  · have none : v = "" := stringBytes_eq_nil empty
    have same : w.string field v = w := by
      rw [Writer.string, bytes, if_neg (not_not_intro empty)]
    rw [same, none]
    exact skipped.symm ▸ carries
  · rw [Writer.string, bytes_eq_message w field empty]
    apply carries.message field number
    intro _
    rw [sets, parseString_stringBytes, Option.map_some]

theorem Carries.parsed (carries : Carries setField initial w read)
    (bound : w.buf.length < 2 ^ 31) :
    (parseFields w.buf).bind (·.foldlM setField initial) = some read := by
  rcases carries bound with ⟨fields, parses⟩
  rw [← parses.written, parseFields_bytes parses.fits]
  exact parses.merged

end Carries

end Writer

end PiAgents.Capture
