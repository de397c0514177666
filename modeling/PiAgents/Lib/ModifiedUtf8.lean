import PiAgents.Lib.ByteStream

/-! Strings as Java writes them: UTF-16 units, each in one to three bytes, behind a length of two
bytes. -/

namespace PiAgents.ModifiedUtf8

open ByteStream

/-- The units of a character: itself, or two surrogates. -/
def utf16 (c : Char) : List Nat :=
  if c.toNat < 0x10000 then [c.toNat]
  else [0xd800 + (c.toNat - 0x10000) / 1024, 0xdc00 + (c.toNat - 0x10000) % 1024]

/-- The characters of a sequence of units. Without a value a surrogate stands alone, which no
`String` can hold. -/
def fromUtf16 : List Nat → Option (List Char)
  | [] => some []
  | unit :: rest =>
      if unit < 0xd800 ∨ 0xe000 ≤ unit then (fromUtf16 rest).map (Char.ofNat unit :: ·)
      else
        match rest with
        | [] => none
        | low :: rest =>
            if unit < 0xdc00 ∧ 0xdc00 ≤ low ∧ low < 0xe000 then
              (fromUtf16 rest).map
                (Char.ofNat (0x10000 + 1024 * (unit - 0xd800) + (low - 0xdc00)) :: ·)
            else none

/-- The unit 0 takes two bytes. -/
def encodeUnit (unit : Nat) : List UInt8 :=
  if 0 < unit ∧ unit < 0x80 then [UInt8.ofNat unit]
  else if unit < 0x800 then [UInt8.ofNat (0xc0 + unit / 64), UInt8.ofNat (0x80 + unit % 64)]
  else
    [UInt8.ofNat (0xe0 + unit / 4096), UInt8.ofNat (0x80 + unit / 64 % 64),
      UInt8.ofNat (0x80 + unit % 64)]

def continues (byte : UInt8) : Bool := byte.toNat / 64 == 2

def decodeUnits : List UInt8 → Option (List Nat)
  | [] => some []
  | byte :: rest =>
      if byte.toNat < 0x80 then (decodeUnits rest).map (byte.toNat :: ·)
      else if byte.toNat / 32 = 6 then
        match rest with
        | second :: rest =>
            if continues second then
              (decodeUnits rest).map ((64 * (byte.toNat % 32) + second.toNat % 64) :: ·)
            else none
        | [] => none
      else if byte.toNat / 16 = 14 then
        match rest with
        | second :: third :: rest =>
            if continues second && continues third then
              (decodeUnits rest).map ((4096 * (byte.toNat % 16) + 64 * (second.toNat % 64) +
                third.toNat % 64) :: ·)
            else none
        | _ => none
      else none

def encoded (s : String) : List UInt8 := (s.toList.flatMap utf16).flatMap encodeUnit

/-- The length fits its two bytes. -/
def Fits (s : String) : Prop := (encoded s).length < 65536

instance (s : String) : Decidable (Fits s) :=
  inferInstanceAs (Decidable ((encoded s).length < 65536))

def utfBytes (s : String) : List UInt8 := toBeBytes 2 (encoded s).length ++ encoded s

/-- `DataOutput.writeUTF` -/
def writeUtf (s : String) : Option (List UInt8) := if Fits s then some (utfBytes s) else none

/-- `DataInput.readUTF` -/
def readUtf : Reader String := do
  let length ← readNumber 2
  let bytes ← readBytes length
  let units ← decodeUnits bytes
  let characters ← fromUtf16 units
  return String.ofList characters

private theorem char_range (c : Char) : c.toNat < 0xd800 ∨ 0xdfff < c.toNat ∧ c.toNat < 0x110000 :=
  c.valid

private theorem fromUtf16_alone {unit : Nat} (alone : unit < 0xd800 ∨ 0xe000 ≤ unit)
    (rest : List Nat) :
    fromUtf16 (unit :: rest) = (fromUtf16 rest).map (Char.ofNat unit :: ·) := by
  cases rest with
  | nil => simp only [fromUtf16, if_pos alone]
  | cons low rest => simp only [fromUtf16, if_pos alone]

theorem fromUtf16_utf16 (c : Char) (units : List Nat) :
    fromUtf16 (utf16 c ++ units) = (fromUtf16 units).map (c :: ·) := by
  have range := char_range c
  by_cases basic : c.toNat < 0x10000
  · have alone : c.toNat < 0xd800 ∨ 0xe000 ≤ c.toNat := by omega
    rw [utf16, if_pos basic, List.singleton_append, fromUtf16_alone alone, Char.ofNat_toNat]
  · have surrogate : ¬ (0xd800 + (c.toNat - 0x10000) / 1024 < 0xd800 ∨
        0xe000 ≤ 0xd800 + (c.toNat - 0x10000) / 1024) := by omega
    have pair : 0xd800 + (c.toNat - 0x10000) / 1024 < 0xdc00 ∧
        0xdc00 ≤ 0xdc00 + (c.toNat - 0x10000) % 1024 ∧
        0xdc00 + (c.toNat - 0x10000) % 1024 < 0xe000 := by omega
    have whole : 0x10000 + 1024 * (0xd800 + (c.toNat - 0x10000) / 1024 - 0xd800) +
        (0xdc00 + (c.toNat - 0x10000) % 1024 - 0xdc00) = c.toNat := by omega
    rw [utf16, if_neg basic, List.cons_append, List.singleton_append]
    simp only [fromUtf16, if_neg surrogate, if_pos pair, whole, Char.ofNat_toNat]

theorem fromUtf16_flatMap (characters : List Char) :
    fromUtf16 (characters.flatMap utf16) = some characters := by
  induction characters with
  | nil => rfl
  | cons c rest ih => rw [List.flatMap_cons, fromUtf16_utf16, ih, Option.map_some]

private theorem utf16_bound (c : Char) : ∀ unit ∈ utf16 c, unit < 65536 := by
  have range := char_range c
  intro unit member
  by_cases basic : c.toNat < 0x10000
  · rw [utf16, if_pos basic] at member
    rw [List.mem_singleton.mp member]
    exact basic
  · rw [utf16, if_neg basic] at member
    rcases List.mem_cons.mp member with rfl | second
    · omega
    · rw [List.mem_singleton.mp second]
      omega

private theorem decodeUnits_single {byte : UInt8} (single : byte.toNat < 0x80) (rest : List UInt8) :
    decodeUnits (byte :: rest) = (decodeUnits rest).map (byte.toNat :: ·) := by
  rcases rest with none | ⟨second, none | ⟨third, rest⟩⟩
  · simp only [decodeUnits, if_pos single]
  · simp only [decodeUnits, if_pos single]
  · simp only [decodeUnits, if_pos single]

theorem decodeUnits_encodeUnit {unit : Nat} (bound : unit < 65536) (bytes : List UInt8) :
    decodeUnits (encodeUnit unit ++ bytes) = (decodeUnits bytes).map (unit :: ·) := by
  by_cases one : 0 < unit ∧ unit < 0x80
  · have same : (UInt8.ofNat unit).toNat = unit := UInt8.toNat_ofNat_of_lt' (show _ < 256 by omega)
    have single : (UInt8.ofNat unit).toNat < 0x80 := by rw [same]; exact one.2
    rw [encodeUnit, if_pos one, List.singleton_append, decodeUnits_single single, same]
  · by_cases two : unit < 0x800
    · have first : (UInt8.ofNat (0xc0 + unit / 64)).toNat = 0xc0 + unit / 64 :=
        UInt8.toNat_ofNat_of_lt' (show _ < 256 by omega)
      have second : (UInt8.ofNat (0x80 + unit % 64)).toNat = 0x80 + unit % 64 :=
        UInt8.toNat_ofNat_of_lt' (show _ < 256 by omega)
      have notOne : ¬ 0xc0 + unit / 64 < 0x80 := by omega
      have isTwo : (0xc0 + unit / 64) / 32 = 6 := by omega
      have follows : continues (UInt8.ofNat (0x80 + unit % 64)) = true := by
        rw [continues, second, beq_iff_eq]
        omega
      have whole : 64 * ((0xc0 + unit / 64) % 32) + (0x80 + unit % 64) % 64 = unit := by omega
      rw [encodeUnit, if_neg one, if_pos two, List.cons_append, List.singleton_append,
        decodeUnits, first, if_neg notOne, if_pos isTwo]
      simp only [follows, if_true, second, whole]
    · have first : (UInt8.ofNat (0xe0 + unit / 4096)).toNat = 0xe0 + unit / 4096 :=
        UInt8.toNat_ofNat_of_lt' (show _ < 256 by omega)
      have second : (UInt8.ofNat (0x80 + unit / 64 % 64)).toNat = 0x80 + unit / 64 % 64 :=
        UInt8.toNat_ofNat_of_lt' (show _ < 256 by omega)
      have third : (UInt8.ofNat (0x80 + unit % 64)).toNat = 0x80 + unit % 64 :=
        UInt8.toNat_ofNat_of_lt' (show _ < 256 by omega)
      have notOne : ¬ 0xe0 + unit / 4096 < 0x80 := by omega
      have notTwo : ¬ (0xe0 + unit / 4096) / 32 = 6 := by omega
      have isThree : (0xe0 + unit / 4096) / 16 = 14 := by omega
      have follows : continues (UInt8.ofNat (0x80 + unit / 64 % 64)) = true := by
        rw [continues, second, beq_iff_eq]
        omega
      have ends : continues (UInt8.ofNat (0x80 + unit % 64)) = true := by
        rw [continues, third, beq_iff_eq]
        omega
      have whole : 4096 * ((0xe0 + unit / 4096) % 16) + 64 * ((0x80 + unit / 64 % 64) % 64) +
          (0x80 + unit % 64) % 64 = unit := by omega
      rw [encodeUnit, if_neg one, if_neg two, List.cons_append, List.cons_append,
        List.singleton_append, decodeUnits, first, if_neg notOne, if_neg notTwo, if_pos isThree]
      simp only [follows, ends, Bool.and_self, if_true, second, third, whole]

theorem decodeUnits_flatMap {units : List Nat} (bounds : ∀ unit ∈ units, unit < 65536) :
    decodeUnits (units.flatMap encodeUnit) = some units := by
  induction units with
  | nil => rfl
  | cons unit rest ih =>
      have later := ih fun other member => bounds other (List.mem_cons_of_mem _ member)
      rw [List.flatMap_cons, decodeUnits_encodeUnit (bounds unit (List.mem_cons_self ..)), later,
        Option.map_some]

theorem writeUtf_of_fits {s : String} (fits : Fits s) : writeUtf s = some (utfBytes s) :=
  if_pos fits

theorem reads_utf {s : String} (fits : Fits s) : Reads readUtf (utfBytes s) s := by
  have bounds : ∀ unit ∈ s.toList.flatMap utf16, unit < 65536 := by
    intro unit member
    rcases List.mem_flatMap.mp member with ⟨c, _, inUnits⟩
    exact utf16_bound c unit inUnits
  have units : decodeUnits (encoded s) = some (s.toList.flatMap utf16) :=
    decodeUnits_flatMap bounds
  have length : (encoded s).length < 256 ^ 2 := fits
  apply (reads_number length).bind
  apply (reads_bytes (encoded s)).last
  rw [units]
  have characters := fromUtf16_flatMap s.toList
  change (do
    let characters ← (fromUtf16 (s.toList.flatMap utf16) : Reader (List Char))
    return String.ofList characters : Reader String) = _
  rw [characters]
  change (pure (String.ofList s.toList) : Reader String) = _
  rw [String.ofList_toList]

end PiAgents.ModifiedUtf8
