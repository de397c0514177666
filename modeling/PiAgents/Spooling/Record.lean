import Mathlib

/-! The record format of a spool segment: length and checksum, then sequence number, event time,
topic, key and payload, all little-endian. -/

namespace PiAgents.Spooling

def recordHeader : Nat := 8
def entryFixed : Nat := 8 + 8 + 1 + 2

inductive Topic where
  | flows
  | health
  deriving DecidableEq, Repr

namespace Topic

def toU8 : Topic → UInt8
  | .flows => 1
  | .health => 2

def fromU8 (v : UInt8) : Option Topic :=
  if v = 1 then some .flows else if v = 2 then some .health else none

@[simp] theorem fromU8_toU8 (topic : Topic) : fromU8 topic.toU8 = some topic := by
  cases topic with
  | flows => rfl
  | health => rfl

end Topic

structure Entry where
  seq : Nat
  eventTimeMs : Int64
  topic : Topic
  key : List UInt8
  payload : List UInt8
  deriving DecidableEq, Repr

def toLeBytes : Nat → Nat → List UInt8
  | 0, _ => []
  | width + 1, n => UInt8.ofNat n :: toLeBytes width (n / 256)

def fromLeBytes : List UInt8 → Nat
  | [] => 0
  | byte :: bytes => byte.toNat + 256 * fromLeBytes bytes

@[simp] theorem toLeBytes_length (width n : Nat) : (toLeBytes width n).length = width := by
  induction width generalizing n with
  | zero => rfl
  | succ width ih => rw [toLeBytes, List.length_cons, ih]

theorem fromLeBytes_toLeBytes (width n : Nat) :
    fromLeBytes (toLeBytes width n) = n % 256 ^ width := by
  induction width generalizing n with
  | zero => simp [toLeBytes, fromLeBytes, Nat.mod_one]
  | succ width ih =>
      rw [toLeBytes, fromLeBytes, ih, UInt8.toNat_ofNat']
      calc
        n % 256 + 256 * (n / 256 % 256 ^ width) = n % (256 * 256 ^ width) :=
          (Nat.mod_mul).symm
        _ = n % 256 ^ (width + 1) := by rw [Nat.pow_succ, Nat.mul_comm]

private theorem fromLeBytes_of_lt {width n : Nat} (bound : n < 256 ^ width) :
    fromLeBytes (toLeBytes width n) = n := by
  rw [fromLeBytes_toLeBytes, Nat.mod_eq_of_lt bound]

def crcBit (crc : UInt32) : UInt32 :=
  if crc &&& 1 ≠ 0 then (crc >>> 1) ^^^ 0xedb88320 else crc >>> 1

def crcByte (crc : UInt32) (byte : UInt8) : UInt32 :=
  (List.range 8).foldl (fun crc _ => crcBit crc) (crc ^^^ byte.toUInt32)

def crc32 (data : List UInt8) : UInt32 := ~~~ data.foldl crcByte 0xffffffff

/-- What the length and the checksum of a record cover. -/
def entryBody (entry : Entry) : List UInt8 :=
  toLeBytes 8 entry.seq ++ toLeBytes 8 entry.eventTimeMs.toUInt64.toNat ++ [entry.topic.toU8] ++
    toLeBytes 2 entry.key.length ++ entry.key ++ entry.payload

def frame (body : List UInt8) : List UInt8 :=
  toLeBytes 4 body.length ++ toLeBytes 4 (crc32 body).toNat ++ body

def encodeEntry (entry : Entry) : List UInt8 := frame (entryBody entry)

/-- `bytes.get(first..last)`. -/
def slice (bytes : List UInt8) (first last : Nat) : Option (List UInt8) :=
  if last ≤ bytes.length then some ((bytes.drop first).take (last - first)) else none

def decodeBody (body : List UInt8) : Option Entry := do
  let seq := fromLeBytes (← slice body 0 8)
  let eventTimeMs := (UInt64.ofNat (fromLeBytes (← slice body 8 16))).toInt64
  let topic ← Topic.fromU8 (← body[16]?)
  let keyLen := fromLeBytes (← slice body 17 19)
  let key ← slice body 19 (19 + keyLen)
  let payload ← slice body (19 + keyLen) body.length
  return ⟨seq, eventTimeMs, topic, key, payload⟩

/-- A header and the bytes it announces: checksum, body and what follows. -/
def readFrame (bytes : List UInt8) : Option (UInt32 × List UInt8 × List UInt8) :=
  if bytes.length < recordHeader then none
  else
    let len := fromLeBytes (bytes.take 4)
    let crc := UInt32.ofNat (fromLeBytes ((bytes.drop 4).take 4))
    let rest := bytes.drop recordHeader
    if rest.length < len then none else some (crc, rest.take len, rest.drop len)

/-- The valid records and their length in bytes. Every round takes a header of the bytes left, so
there are fewer rounds than bytes. -/
def readRecords : Nat → List UInt8 → List Entry × Nat
  | 0, _ => ([], 0)
  | rounds + 1, bytes =>
      match readFrame bytes with
      | none => ([], 0)
      | some (crc, body, rest) =>
          if crc32 body ≠ crc then ([], 0)
          else
            match decodeBody body with
            | none => ([], 0)
            | some entry =>
                let later := readRecords rounds rest
                (entry :: later.1, recordHeader + body.length + later.2)

def readSegment (bytes : List UInt8) : List Entry × Nat := readRecords (bytes.length + 1) bytes

theorem frame_length (body : List UInt8) : (frame body).length = recordHeader + body.length := by
  simp only [frame, List.length_append, toLeBytes_length, recordHeader]

theorem entryBody_length (entry : Entry) :
    (entryBody entry).length = entryFixed + entry.key.length + entry.payload.length := by
  simp only [entryBody, List.length_append, toLeBytes_length, List.length_singleton, entryFixed]

theorem encodeEntry_length (entry : Entry) : (encodeEntry entry).length =
    recordHeader + (entryFixed + entry.key.length + entry.payload.length) := by
  rw [encodeEntry, frame_length, entryBody_length]

theorem frame_len {body : List UInt8} (bound : body.length < 2 ^ 32) (rest : List UInt8) :
    fromLeBytes ((frame body ++ rest).take 4) = body.length := by
  have width : (toLeBytes 4 body.length).length = 4 := toLeBytes_length 4 body.length
  rw [frame, List.append_assoc, List.append_assoc, List.take_left' width]
  exact fromLeBytes_of_lt bound

theorem readFrame_frame {body : List UInt8} (bound : body.length < 2 ^ 32) (rest : List UInt8) :
    readFrame (frame body ++ rest) = some (crc32 body, body, rest) := by
  have lenWidth : (toLeBytes 4 body.length).length = 4 := toLeBytes_length 4 body.length
  have crcWidth : (toLeBytes 4 (crc32 body).toNat).length = 4 := toLeBytes_length 4 _
  have crc : ((frame body ++ rest).drop 4).take 4 = toLeBytes 4 (crc32 body).toNat := by
    rw [frame, List.append_assoc, List.append_assoc, List.drop_left' lenWidth,
      List.take_left' crcWidth]
  have after : (frame body ++ rest).drop recordHeader = body ++ rest := by
    rw [frame, List.append_assoc, List.drop_left' (by simp [toLeBytes_length, recordHeader])]
  have enough : ¬ (frame body ++ rest).length < recordHeader := by
    rw [List.length_append, frame_length]
    omega
  have whole : ¬ (body ++ rest).length < body.length := by
    rw [List.length_append]
    omega
  have crcBound : (crc32 body).toNat < 256 ^ 4 := (crc32 body).toNat_lt
  simp only [readFrame, enough, if_false, frame_len bound, crc, after, whole,
    fromLeBytes_of_lt crcBound, UInt32.ofNat_toNat, List.take_left, List.drop_left]

theorem readFrame_cut {body cut : List UInt8} (bound : body.length < 2 ^ 32)
    (begins : cut <+: frame body) (proper : cut.length < (frame body).length) :
    readFrame cut = none := by
  by_cases short : cut.length < recordHeader
  · simp only [readFrame, short, if_true]
  · rcases begins with ⟨rest, whole⟩
    have header : 4 ≤ cut.length := by
      unfold recordHeader at short
      omega
    have len : fromLeBytes (cut.take 4) = body.length := by
      have announced := frame_len bound []
      rwa [List.append_nil, ← whole, List.take_append_of_le_length header] at announced
    have missing : (cut.drop recordHeader).length < body.length := by
      rw [frame_length] at proper
      rw [List.length_drop]
      omega
    simp only [readFrame, short, if_false, len, missing, if_true]

private theorem slice_middle {before part after : List UInt8} {first last : Nat}
    (start : before.length = first) (width : part.length = last - first) (ordered : first ≤ last) :
    slice (before ++ part ++ after) first last = some part := by
  have within : last ≤ (before ++ part ++ after).length := by
    simp only [List.length_append]
    omega
  rw [slice, if_pos within, List.append_assoc, List.drop_left' start, List.take_left' width]

/-- What a record gives back: a key of 65536 bytes and more is cut at the remainder of its length. -/
def stored (entry : Entry) : Entry :=
  { entry with
    key := (entry.key ++ entry.payload).take (entry.key.length % 65536)
    payload := (entry.key ++ entry.payload).drop (entry.key.length % 65536) }

theorem stored_of_key {entry : Entry} (short : entry.key.length < 65536) : stored entry = entry := by
  simp only [stored, Nat.mod_eq_of_lt short, List.take_left, List.drop_left]

section Fields

variable (entry : Entry)

private theorem slice_seq : slice (entryBody entry) 0 8 = some (toLeBytes 8 entry.seq) := by
  have parts : entryBody entry = [] ++ toLeBytes 8 entry.seq ++
      (toLeBytes 8 entry.eventTimeMs.toUInt64.toNat ++ [entry.topic.toU8] ++
        toLeBytes 2 entry.key.length ++ entry.key ++ entry.payload) := by
    simp only [entryBody, List.append_assoc, List.nil_append]
  rw [parts]
  exact slice_middle rfl (toLeBytes_length 8 _) (by decide)

private theorem slice_time :
    slice (entryBody entry) 8 16 = some (toLeBytes 8 entry.eventTimeMs.toUInt64.toNat) := by
  have parts : entryBody entry = toLeBytes 8 entry.seq ++
      toLeBytes 8 entry.eventTimeMs.toUInt64.toNat ++ ([entry.topic.toU8] ++
        toLeBytes 2 entry.key.length ++ entry.key ++ entry.payload) := by
    simp only [entryBody, List.append_assoc]
  rw [parts]
  exact slice_middle (toLeBytes_length 8 _) (toLeBytes_length 8 _) (by decide)

private theorem topic_byte : (entryBody entry)[16]? = some entry.topic.toU8 := by
  have parts : entryBody entry = (toLeBytes 8 entry.seq ++
      toLeBytes 8 entry.eventTimeMs.toUInt64.toNat) ++ entry.topic.toU8 ::
        (toLeBytes 2 entry.key.length ++ entry.key ++ entry.payload) := by
    simp only [entryBody, List.append_assoc, List.cons_append, List.nil_append]
  have start : (toLeBytes 8 entry.seq ++
      toLeBytes 8 entry.eventTimeMs.toUInt64.toNat).length = 16 := by
    simp only [List.length_append, toLeBytes_length]
  rw [parts, List.getElem?_append_right (by omega), start]
  rfl

private theorem slice_keyLen :
    slice (entryBody entry) 17 19 = some (toLeBytes 2 entry.key.length) := by
  have parts : entryBody entry = (toLeBytes 8 entry.seq ++
      toLeBytes 8 entry.eventTimeMs.toUInt64.toNat ++ [entry.topic.toU8]) ++
        toLeBytes 2 entry.key.length ++ (entry.key ++ entry.payload) := by
    simp only [entryBody, List.append_assoc]
  rw [parts]
  apply slice_middle _ (toLeBytes_length 2 _) (by decide)
  simp only [List.length_append, toLeBytes_length, List.length_singleton]

theorem entryBody_tail : ∃ fixed : List UInt8, fixed.length = entryFixed ∧
    entryBody entry = fixed ++ (entry.key ++ entry.payload) := by
  refine ⟨toLeBytes 8 entry.seq ++ toLeBytes 8 entry.eventTimeMs.toUInt64.toNat ++
    [entry.topic.toU8] ++ toLeBytes 2 entry.key.length, ?_, ?_⟩
  · simp only [List.length_append, toLeBytes_length, List.length_singleton, entryFixed]
  · simp only [entryBody, List.append_assoc]

private theorem slice_key {kept : Nat} (within : kept ≤ (entry.key ++ entry.payload).length) :
    slice (entryBody entry) 19 (19 + kept) = some ((entry.key ++ entry.payload).take kept) := by
  rcases entryBody_tail entry with ⟨fixed, width, parts⟩
  have start : fixed.length = 19 := width
  have split := List.take_append_drop kept (entry.key ++ entry.payload)
  rw [parts, ← split, ← List.append_assoc, split]
  apply slice_middle start _ (by omega)
  rw [List.length_take, Nat.min_eq_left within]
  omega

private theorem slice_payload (kept : Nat) :
    slice (entryBody entry) (19 + kept) (entryBody entry).length =
      some ((entry.key ++ entry.payload).drop kept) := by
  rcases entryBody_tail entry with ⟨fixed, width, parts⟩
  have start : fixed.length = 19 := width
  have skipped : fixed.drop (19 + kept) = [] := by
    apply List.drop_eq_nil_of_le
    omega
  have rest : 19 + kept - fixed.length = kept := by
    omega
  rw [slice, if_pos (Nat.le_refl _), parts, List.drop_append, skipped, List.nil_append, rest]
  apply congrArg some
  apply List.take_of_length_le
  have total : (fixed ++ (entry.key ++ entry.payload)).length =
      fixed.length + (entry.key ++ entry.payload).length := List.length_append
  rw [List.length_drop]
  omega

end Fields

theorem decodeBody_entryBody {entry : Entry} (bound : entry.seq < 2 ^ 64) :
    decodeBody (entryBody entry) = some (stored entry) := by
  have kept : entry.key.length % 65536 ≤ (entry.key ++ entry.payload).length := by
    rw [List.length_append]
    exact Nat.le_add_right_of_le (Nat.mod_le _ _)
  have seq : fromLeBytes (toLeBytes 8 entry.seq) = entry.seq := fromLeBytes_of_lt bound
  have time : fromLeBytes (toLeBytes 8 entry.eventTimeMs.toUInt64.toNat) =
      entry.eventTimeMs.toUInt64.toNat :=
    fromLeBytes_of_lt entry.eventTimeMs.toUInt64.toNat_lt
  have keyLen : fromLeBytes (toLeBytes 2 entry.key.length) = entry.key.length % 65536 :=
    fromLeBytes_toLeBytes 2 entry.key.length
  simp only [decodeBody, slice_seq, slice_time, topic_byte, slice_keyLen, Option.bind_eq_bind,
    Option.bind_some, Topic.fromU8_toU8, keyLen, slice_key entry kept, slice_payload, seq, time,
    UInt64.ofNat_toNat, Int64.toInt64_toUInt64]
  rfl

/-- The length field holds the body's length and the sequence field the sequence. -/
structure Entry.Fits (entry : Entry) : Prop where
  seq : entry.seq < 2 ^ 64
  body : (entryBody entry).length < 2 ^ 32

def encodeAll (entries : List Entry) : List UInt8 := entries.flatMap encodeEntry

@[simp] theorem encodeAll_nil : encodeAll [] = [] := rfl

@[simp] theorem encodeAll_cons (entry : Entry) (rest : List Entry) :
    encodeAll (entry :: rest) = encodeEntry entry ++ encodeAll rest := rfl

@[simp] theorem encodeAll_append (first second : List Entry) :
    encodeAll (first ++ second) = encodeAll first ++ encodeAll second :=
  List.flatMap_append

theorem encodeEntry_pos (entry : Entry) : 0 < (encodeEntry entry).length := by
  rw [encodeEntry_length, recordHeader]
  omega

theorem encodeAll_covers (entries : List Entry) : entries.length ≤ (encodeAll entries).length := by
  induction entries with
  | nil => exact Nat.le_refl _
  | cons entry rest ih =>
      have positive := encodeEntry_pos entry
      rw [encodeAll_cons, List.length_append, List.length_cons]
      omega

theorem readRecords_encodeAll {entries : List Entry} (fits : ∀ entry ∈ entries, entry.Fits)
    {tail : List UInt8} (ends : ∀ rounds, readRecords rounds tail = ([], 0)) (rounds : Nat)
    (enough : entries.length < rounds) :
    readRecords rounds (encodeAll entries ++ tail) =
      (entries.map stored, (encodeAll entries).length) := by
  induction entries generalizing rounds with
  | nil => exact ends rounds
  | cons entry rest ih =>
      cases rounds with
      | zero => cases enough
      | succ rounds =>
          have fit := fits entry (List.mem_cons_self ..)
          have later := ih (fun other member => fits other (List.mem_cons_of_mem _ member)) rounds
            (Nat.lt_of_succ_lt_succ enough)
          rw [encodeAll_cons, List.append_assoc]
          simp only [readRecords, encodeEntry, readFrame_frame fit.body, ne_eq, not_true_eq_false,
            if_false, decodeBody_entryBody fit.seq, later, List.map_cons, List.length_append,
            frame_length]

theorem readSegment_of_ends {entries : List Entry} (fits : ∀ entry ∈ entries, entry.Fits)
    {tail : List UInt8} (ends : ∀ rounds, readRecords rounds tail = ([], 0)) :
    readSegment (encodeAll entries ++ tail) =
      (entries.map stored, (encodeAll entries).length) := by
  have covered := encodeAll_covers entries
  apply readRecords_encodeAll fits ends
  rw [List.length_append]
  omega

theorem readRecords_torn {tail : List UInt8} (torn : readFrame tail = none) (rounds : Nat) :
    readRecords rounds tail = ([], 0) := by
  cases rounds with
  | zero => rfl
  | succ rounds => simp only [readRecords, torn]

/-- Recovery keeps the whole records and nothing of a torn tail. -/
theorem readSegment_encodeAll {entries : List Entry} (fits : ∀ entry ∈ entries, entry.Fits)
    {tail : List UInt8} (torn : readFrame tail = none) :
    readSegment (encodeAll entries ++ tail) =
      (entries.map stored, (encodeAll entries).length) :=
  readSegment_of_ends fits (readRecords_torn torn)

theorem readFrame_nil : readFrame [] = none := rfl

/-- Eight zeros are the header of an empty body with a valid checksum, and no entry is in it. -/
theorem readRecords_zeroHeader (rest : List UInt8) (rounds : Nat) :
    readRecords rounds (List.replicate 8 0 ++ rest) = ([], 0) := by
  cases rounds with
  | zero => rfl
  | succ rounds =>
      have empty : crc32 [] = 0 := by decide
      have frame : readFrame (List.replicate 8 0 ++ rest) = some (0, [], rest) := rfl
      simp only [readRecords, frame, empty, ne_eq, not_true_eq_false, if_false]
      rfl

theorem readRecords_zeros (count rounds : Nat) :
    readRecords rounds (List.replicate count 0) = ([], 0) := by
  by_cases short : count < recordHeader
  · have torn : readFrame (List.replicate count 0) = none := by
      rw [readFrame, List.length_replicate, if_pos short]
    exact readRecords_torn torn rounds
  · have whole : List.replicate count (0 : UInt8) =
        List.replicate 8 0 ++ List.replicate (count - 8) 0 := by
      have enough : 8 + (count - 8) = count := Nat.add_sub_cancel' (Nat.le_of_not_lt short)
      rw [← List.replicate_add, enough]
    rw [whole]
    exact readRecords_zeroHeader _ rounds

/-- An entry that its record gives back: the key's length has two bytes, the body's four. -/
structure Entry.Recordable (entry : Entry) : Prop extends entry.Fits where
  key : entry.key.length < 65536

/-- What a crash leaves behind the last record: a part of another one, or zeros. -/
inductive TornTail : List UInt8 → Prop where
  | cut {entry : Entry} {tail : List UInt8} (recordable : entry.Recordable)
      (begins : tail <+: encodeEntry entry) (proper : tail.length < (encodeEntry entry).length) :
      TornTail tail
  | zeros (count : Nat) : TornTail (List.replicate count 0)

theorem TornTail.ends {tail : List UInt8} (torn : TornTail tail) (rounds : Nat) :
    readRecords rounds tail = ([], 0) := by
  cases torn with
  | cut recordable begins proper =>
      exact readRecords_torn (readFrame_cut recordable.body begins proper) rounds
  | zeros count => exact readRecords_zeros count rounds

theorem map_stored {entries : List Entry} (short : ∀ entry ∈ entries, entry.key.length < 65536) :
    entries.map stored = entries := by
  induction entries with
  | nil => rfl
  | cons entry rest ih =>
      have later := ih fun other member => short other (List.mem_cons_of_mem _ member)
      rw [List.map_cons, stored_of_key (short entry List.mem_cons_self), later]

/-- A segment gives back the entries recorded in it and their length, whatever a crash has left
behind them. -/
theorem readSegment_recovers {entries : List Entry}
    (recordable : ∀ entry ∈ entries, entry.Recordable) {tail : List UInt8} (torn : TornTail tail) :
    readSegment (encodeAll entries ++ tail) = (entries, (encodeAll entries).length) := by
  have read := readSegment_of_ends (fun entry member => (recordable entry member).toFits) torn.ends
  rw [read, map_stored fun entry member => (recordable entry member).key]

def twoEntries : List Entry :=
  [⟨7, -1, .flows, [103, 119], [1, 2, 3]⟩, ⟨18446744073709551615, 1767225600000, .health, [], []⟩]

theorem readSegment_recovers_two :
    readSegment (encodeAll twoEntries ++ (encodeEntry ⟨9, 0, .flows, [1], [2]⟩).take 20) =
        (twoEntries, (encodeAll twoEntries).length) ∧
      readSegment (encodeAll twoEntries ++ List.replicate 12 0) =
        (twoEntries, (encodeAll twoEntries).length) := by
  have recordable : ∀ entry ∈ twoEntries, entry.Recordable := by
    intro entry member
    simp only [twoEntries, List.mem_cons, List.not_mem_nil, or_false] at member
    rcases member with rfl | rfl
    · exact ⟨⟨by decide, by decide⟩, by decide⟩
    · exact ⟨⟨by decide, by decide⟩, by decide⟩
  have third : Entry.Recordable ⟨9, 0, .flows, [1], [2]⟩ := ⟨⟨by decide, by decide⟩, by decide⟩
  have cut : TornTail ((encodeEntry ⟨9, 0, .flows, [1], [2]⟩).take 20) :=
    .cut third (List.take_prefix 20 _) (by decide)
  exact ⟨readSegment_recovers recordable cut, readSegment_recovers recordable (.zeros 12)⟩

end PiAgents.Spooling
