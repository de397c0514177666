import PiAgents.Capture.IpPackets

/-! The name of a query's first question: which messages have one, and for which of them
`parseDnsQuery` returns it. -/

namespace PiAgents.Capture

/-- Letters, digits, hyphen and underscore. -/
def LabelByte (c : UInt8) : Prop :=
  (48 ≤ c ∧ c ≤ 57) ∨ (65 ≤ c ∧ c ≤ 90) ∨ (97 ≤ c ∧ c ≤ 122) ∨ c = 45 ∨ c = 95

instance (c : UInt8) : Decidable (LabelByte c) := by
  unfold LabelByte
  infer_instance

def lowered (c : UInt8) : Char :=
  Char.ofNat (if 65 ≤ c ∧ c ≤ 90 then c.toNat + 32 else c.toNat)

private theorem dnsChar_eq (c : UInt8) :
    dnsChar c = if LabelByte c then some (lowered c) else none := by
  have all : ∀ n < 256, dnsChar (UInt8.ofNat n) =
      if LabelByte (UInt8.ofNat n) then some (lowered (UInt8.ofNat n)) else none := by
    decide +kernel
  have this := all c.toNat c.toNat_lt
  rwa [UInt8.ofNat_toNat] at this

structure Label (label : Bytes) : Prop where
  nonempty : 1 ≤ label.length
  short : label.length ≤ 63
  bytes : ∀ c ∈ label, LabelByte c

theorem Label.toNat_length {label : Bytes} (valid : Label label) :
    (UInt8.ofNat label.length).toNat = label.length := by
  have short := valid.short
  rw [UInt8.toNat_ofNat', Nat.mod_eq_of_lt (by omega)]

/-- The labels as a message carries them, up to the zero byte. -/
def wireName (labels : List Bytes) : Bytes :=
  labels.flatMap (fun label => UInt8.ofNat label.length :: label) ++ [0]

/-- The labels in lower case, joined with dots. -/
def joinedName (labels : List Bytes) : List Char :=
  List.intercalate ['.'] (labels.map (·.map lowered))

/-- The message is a query whose first question has these labels for its name. -/
structure Asks (msg : Bytes) (labels : List Bytes) : Prop where
  query : field16 msg 2 &&& 0x8000 = 0
  question : field16 msg 4 ≠ 0
  named : labels ≠ []
  valid : ∀ label ∈ labels, Label label
  carried : wireName labels <+: msg.drop 12

/-! The label loop. -/

private theorem mapM_dnsChar_iff {label : Bytes} {chars : List Char} :
    label.mapM dnsChar = some chars ↔ (∀ c ∈ label, LabelByte c) ∧ chars = label.map lowered := by
  induction label generalizing chars with
  | nil => simp [eq_comm]
  | cons c rest ih =>
      rw [List.mapM_cons, dnsChar_eq, List.forall_mem_cons, List.map_cons]
      by_cases allowed : LabelByte c
      · rw [if_pos allowed]
        cases later : rest.mapM dnsChar with
        | none =>
            have refused : ¬∀ c ∈ rest, LabelByte c := by
              intro all
              have read := ih.mpr ⟨all, rfl⟩
              rw [later] at read
              cases read
            simp [refused]
        | some read =>
            obtain ⟨all, rfl⟩ := ih.mp later
            simp only [Option.pure_def, Option.bind_eq_bind, Option.bind_some,
              Option.some.injEq, allowed, true_and]
            exact ⟨fun same => ⟨all, same.symm⟩, fun same => same.2.symm⟩
      · simp [allowed]

/-- The name after one more label. -/
def withLabel (name : List Char) (label : Bytes) : List Char :=
  (if name ≠ [] then name ++ ['.'] else name) ++ label.map lowered

private theorem foldl_withLabel {name : List Char} (named : name ≠ []) (labels : List Bytes) :
    labels.foldl withLabel name =
      name ++ labels.flatMap fun label => '.' :: label.map lowered := by
  induction labels generalizing name with
  | nil => simp
  | cons label rest ih =>
      rw [List.foldl_cons, ih (by simp [withLabel, named]), withLabel, if_pos named]
      simp

private theorem joinedName_cons (label : Bytes) (labels : List Bytes) :
    joinedName (label :: labels) =
      label.map lowered ++ labels.flatMap fun label => '.' :: label.map lowered := by
  induction labels generalizing label with
  | nil => simp [joinedName]
  | cons next rest ih =>
      have later := ih next
      rw [joinedName, List.map_cons] at later
      rw [joinedName, List.map_cons, List.map_cons, List.intercalate_cons_cons, later,
        List.flatMap_cons]
      simp

theorem joinedName_eq {labels : List Bytes} (valid : ∀ label ∈ labels, Label label) :
    joinedName labels = labels.foldl withLabel [] := by
  cases labels with
  | nil => rfl
  | cons label rest =>
      have first := (valid label (List.mem_cons_self ..)).nonempty
      have named : label.map lowered ≠ [] := by
        intro empty
        rw [List.map_eq_nil_iff] at empty
        rw [empty] at first
        cases first
      rw [joinedName_cons, List.foldl_cons]
      change _ = rest.foldl withLabel (label.map lowered)
      rw [foldl_withLabel named]

theorem withLabel_length (name : List Char) (label : Bytes) :
    (withLabel name label).length = name.length + (if name ≠ [] then 1 else 0) + label.length := by
  by_cases named : name ≠ []
  · rw [withLabel, if_pos named, if_pos named, List.length_append, List.length_append,
      List.length_map]
    rfl
  · rw [withLabel, if_neg named, if_neg named, List.length_append, List.length_map]
    rfl

private theorem length_le_foldl (labels : List Bytes) (name : List Char) :
    name.length ≤ (labels.foldl withLabel name).length := by
  induction labels generalizing name with
  | nil => exact le_rfl
  | cons label rest ih =>
      have longer := ih (withLabel name label)
      have length := withLabel_length name label
      rw [List.foldl_cons]
      omega

/-- The check on a label's length, made before its dot is written, lets a name of 254 pass. -/
theorem fits_iff {name : List Char} {label : Bytes} (valid : Label label) (rest : List Bytes) :
    (name.length + label.length ≤ 253 ∧
        (rest = [] ∨ (rest.foldl withLabel (withLabel name label)).length ≤ 254)) ↔
      (rest.foldl withLabel (withLabel name label)).length ≤ 254 := by
  have length := withLabel_length name label
  have longer := length_le_foldl rest (withLabel name label)
  have short := valid.short
  constructor
  · rintro ⟨fits, rfl | later⟩
    · rw [List.foldl_nil, length]
      split <;> omega
    · exact later
  · intro fits
    refine ⟨?_, .inr fits⟩
    by_cases named : name ≠ []
    · rw [if_pos named] at length
      omega
    · rw [not_ne_iff.mp named, List.length_nil]
      omega

private theorem wireName_cons (label : Bytes) (labels : List Bytes) :
    wireName (label :: labels) = UInt8.ofNat label.length :: (label ++ wireName labels) := by
  simp [wireName]

private theorem drop_cons {b rest : Bytes} {start : Nat} {x : UInt8}
    (here : b.drop start = x :: rest) :
    b[start]? = some x ∧ b.drop (start + 1) = rest := by
  constructor
  · rw [← Nat.add_zero start, ← List.getElem?_drop, here]
    rfl
  · rw [← List.drop_drop, here]
    rfl

private theorem drop_of_getElem? {b : Bytes} {start : Nat} {x : UInt8} (here : b[start]? = some x) :
    b.drop start = x :: b.drop (start + 1) := by
  obtain ⟨inside, rfl⟩ := List.getElem?_eq_some_iff.mp here
  exact List.drop_eq_getElem_cons inside

private theorem getRange_of_drop {b s rest : Bytes} {start : Nat} (inside : start ≤ b.length)
    (here : b.drop start = s ++ rest) : getRange b start (start + s.length) = some s := by
  have length := congrArg List.length here
  rw [List.length_drop, List.length_append] at length
  rw [getRange_some (by omega) (by omega), here, Nat.add_sub_cancel_left, List.take_left]

private theorem drop_of_getRange {b s : Bytes} {start n : Nat}
    (read : getRange b start (start + n) = some s) :
    s.length = n ∧ b.drop start = s ++ b.drop (start + n) := by
  have length := getRange_length read
  rw [Nat.add_sub_cancel_left] at length
  rw [getRange] at read
  split at read
  · have taken := Option.some.inj read
    rw [Nat.add_sub_cancel_left] at taken
    rw [← List.drop_drop, ← taken, List.take_append_drop]
    exact ⟨by rw [taken, length], rfl⟩
  · cases read

private theorem wireName_prefix_cons {msg : Bytes} {start : Nat} (label : Bytes)
    (labels : List Bytes) :
    wireName (label :: labels) <+: msg.drop start ↔
      msg[start]? = some (UInt8.ofNat label.length) ∧
        getRange msg (start + 1) (start + 1 + label.length) = some label ∧
          wireName labels <+: msg.drop (start + 1 + label.length) := by
  rw [wireName_cons]
  constructor
  · rintro ⟨rest, whole⟩
    rw [List.cons_append, List.append_assoc] at whole
    obtain ⟨first, later⟩ := drop_cons whole.symm
    have inside := (List.getElem?_eq_some_iff.mp first).1
    refine ⟨first, getRange_of_drop inside later, rest, ?_⟩
    rw [← List.drop_drop, later, List.drop_left]
  · rintro ⟨first, read, rest, later⟩
    use rest
    rw [drop_of_getElem? first, (drop_of_getRange read).2, ← later]
    simp

/-- From `start` on, the message has labels that make `result` of the name read before. -/
def NamedFrom (msg : Bytes) (start : Nat) (name result : List Char) : Prop :=
  ∃ labels : List Bytes, (∀ label ∈ labels, Label label) ∧ wireName labels <+: msg.drop start ∧
    result = labels.foldl withLabel name ∧ (labels = [] ∨ result.length ≤ 254)

private theorem not_namedFrom {msg : Bytes} {start : Nat} (ended : msg[start]? = none)
    (name result : List Char) : ¬NamedFrom msg start name result := by
  rintro ⟨labels, _, ⟨rest, carried⟩, _⟩
  rw [List.getElem?_eq_none_iff] at ended
  rw [List.drop_eq_nil_of_le ended, wireName] at carried
  simp at carried

private theorem namedFrom_zero {msg : Bytes} {start : Nat} (zero : msg[start]? = some 0)
    {name result : List Char} : NamedFrom msg start name result ↔ result = name := by
  constructor
  · rintro ⟨labels, valid, carried, same, _⟩
    cases labels with
    | nil => exact same
    | cons label rest =>
        have length := ((wireName_prefix_cons label rest).mp carried).1
        have labelValid := valid label (List.mem_cons_self ..)
        rw [zero] at length
        have empty := labelValid.toNat_length
        rw [← Option.some.inj length] at empty
        exact absurd labelValid.nonempty (by rw [← empty]; decide)
  · rintro rfl
    refine ⟨[], by simp, ?_, rfl, .inl rfl⟩
    rw [drop_of_getElem? zero]
    exact ⟨_, rfl⟩

private theorem namedFrom_label {msg : Bytes} {start : Nat} {byte : UInt8}
    (length : msg[start]? = some byte) (positive : byte.toNat ≠ 0) {name result : List Char} :
    NamedFrom msg start name result ↔
      byte.toNat ≤ 63 ∧ name.length + byte.toNat ≤ 253 ∧
        ∃ label, getRange msg (start + 1) (start + 1 + byte.toNat) = some label ∧
          (∀ c ∈ label, LabelByte c) ∧
            NamedFrom msg (start + 1 + byte.toNat) (withLabel name label) result := by
  constructor
  · rintro ⟨labels, valid, carried, same, short⟩
    cases labels with
    | nil =>
        obtain ⟨rest, whole⟩ := carried
        rw [(drop_cons whole.symm).1] at length
        rw [← Option.some.inj length] at positive
        exact absurd rfl positive
    | cons label rest =>
        obtain ⟨first, read, later⟩ := (wireName_prefix_cons label rest).mp carried
        have labelValid := valid label (List.mem_cons_self ..)
        have sized : byte.toNat = label.length := by
          rw [length] at first
          rw [Option.some.inj first, labelValid.toNat_length]
        have fits := short.resolve_left (List.cons_ne_nil label rest)
        rw [same, List.foldl_cons] at fits
        obtain ⟨checked, restFits⟩ := (fits_iff labelValid rest).mpr fits
        rw [sized]
        refine ⟨labelValid.short, checked, label, read, labelValid.bytes, rest, ?_, later, same, ?_⟩
        · exact fun other member => valid other (List.mem_cons_of_mem _ member)
        · rwa [same]
  · rintro ⟨short, checked, label, read, bytes, rest, valid, carried, same, restFits⟩
    have sized := (drop_of_getRange read).1
    have labelValid : Label label := ⟨by omega, by omega, bytes⟩
    rw [← sized] at read carried
    refine ⟨label :: rest, ?_, ?_, same, .inr ?_⟩
    · rw [List.forall_mem_cons]
      exact ⟨labelValid, valid⟩
    · rw [wireName_prefix_cons]
      refine ⟨?_, read, carried⟩
      rw [length, sized, UInt8.ofNat_toNat]
    · rw [same] at restFits ⊢
      exact (fits_iff labelValid rest).mp ⟨by omega, restFits⟩

/-- Every round moves `start` on, so that the bytes left are enough rounds, with one more. -/
theorem dnsLabels_ends (msg : Bytes) (rounds start : Nat) (name : List Char)
    (enough : msg.length ≤ rounds + start) : (dnsLabels msg (rounds + 1) start name).isSome := by
  induction rounds generalizing start name with
  | zero =>
      have ended : msg[start]? = none := List.getElem?_eq_none (by omega)
      rw [dnsLabels, ended]
      rfl
  | succ rounds ih =>
      rw [dnsLabels]
      split
      · rfl
      · dsimp only
        split
        · rfl
        · split
          · rfl
          · split
            · rfl
            · split
              · rfl
              · exact ih _ _ (by omega)

theorem dnsLabels_iff {msg : Bytes} {result : List Char} (fuel start : Nat) (name : List Char)
    (enough : msg.length < fuel + start) :
    dnsLabels msg fuel start name = some (some result) ↔ NamedFrom msg start name result := by
  induction fuel generalizing start name with
  | zero =>
      have ended : msg[start]? = none := List.getElem?_eq_none (by omega)
      simp [dnsLabels, not_namedFrom ended]
  | succ fuel ih =>
      rw [dnsLabels]
      cases here : msg[start]? with
      | none => simp [not_namedFrom here]
      | some byte =>
          by_cases zero : byte.toNat = 0
          · have isZero : byte = 0 := UInt8.toNat_inj.mp zero
            rw [namedFrom_zero (by rw [here, isZero])]
            simp [zero, eq_comm]
          · rw [namedFrom_label here zero]
            by_cases long : 63 < byte.toNat ∨ 253 < name.length + byte.toNat
            · simp [zero, long]
              omega
            · have short : byte.toNat ≤ 63 ∧ name.length + byte.toNat ≤ 253 := by omega
              simp only [zero, long, if_false, short, true_and]
              cases read : getRange msg (start + 1) (start + 1 + byte.toNat) with
              | none => simp
              | some label =>
                  simp only [Option.some.injEq, exists_eq_left']
                  cases chars : label.mapM dnsChar with
                  | none =>
                      have refused : ¬∀ c ∈ label, LabelByte c := by
                        intro bytes
                        rw [mapM_dnsChar_iff.mpr ⟨bytes, rfl⟩] at chars
                        cases chars
                      simp [refused]
                  | some lowerCase =>
                      obtain ⟨bytes, rfl⟩ := mapM_dnsChar_iff.mp chars
                      rw [and_iff_right bytes]
                      exact ih _ (withLabel name label) (by omega)

private theorem be16_toOption (b : Bytes) (start : Nat) :
    (be16 b start).toOption = if start + 2 ≤ b.length then some (field16 b start) else none := by
  by_cases inside : start + 2 ≤ b.length
  · rw [be16_eq inside, if_pos inside]
    rfl
  · rw [be16, getRange, if_neg (fun bounds => inside bounds.2), if_neg inside]
    rfl

theorem Asks.length {msg : Bytes} {labels : List Bytes} (asks : Asks msg labels) :
    12 < msg.length := by
  obtain ⟨rest, whole⟩ := asks.carried
  have length := congrArg List.length whole
  rw [List.length_append, wireName, List.length_append, List.length_drop] at length
  simp at length
  omega

theorem parseDnsQuery_iff (msg : Bytes) (name : String) :
    parseDnsQuery msg = some name ↔
      ∃ labels, Asks msg labels ∧ name = String.ofList (joinedName labels) ∧
        (joinedName labels).length ≤ 254 := by
  rw [parseDnsQuery, be16_toOption, be16_toOption]
  by_cases long : 4 + 2 ≤ msg.length
  · rw [if_pos long, if_pos (by omega)]
    by_cases refused : field16 msg 2 &&& 0x8000 ≠ 0 ∨ field16 msg 4 = 0
    · have none_asks (labels : List Bytes) : ¬Asks msg labels := fun asks =>
        refused.elim (fun query => query asks.query) fun question => asks.question question
      simp [refused, none_asks]
    · obtain ⟨query, question⟩ := not_or.mp refused
      simp only [Option.bind_eq_bind, Option.bind_some, refused, if_false]
      constructor
      · intro read
        rcases found : dnsLabels msg (msg.length + 1) 12 [] with _ | _ | chars
        · rw [found] at read
          cases read
        · rw [found] at read
          cases read
        · rw [found, Option.join_some, Option.bind_some] at read
          obtain ⟨labels, valid, carried, same, fits⟩ :=
            (dnsLabels_iff _ _ _ (by omega)).mp found
          split at read
          · rename_i named
            obtain rfl := Option.some.inj read
            have nonempty : labels ≠ [] := by
              rintro rfl
              exact named same
            rw [← joinedName_eq valid] at same
            subst same
            exact ⟨labels, ⟨not_ne_iff.mp query, question, nonempty, valid, carried⟩, rfl,
              fits.resolve_left nonempty⟩
          · cases read
      · rintro ⟨labels, asks, rfl, fits⟩
        have found : dnsLabels msg (msg.length + 1) 12 [] = some (some (joinedName labels)) :=
          (dnsLabels_iff _ _ _ (by omega)).mpr
            ⟨labels, asks.valid, asks.carried, joinedName_eq asks.valid, .inr fits⟩
        have named : joinedName labels ≠ [] := by
          intro empty
          cases labels with
          | nil => exact asks.named rfl
          | cons label rest =>
              have first := (asks.valid label (List.mem_cons_self ..)).nonempty
              rw [joinedName_cons, List.append_eq_nil_iff, List.map_eq_nil_iff] at empty
              rw [empty.1] at first
              cases first
        rw [found, Option.join_some, Option.bind_some, if_pos named]
  · have short (labels : List Bytes) : ¬Asks msg labels := fun asks => by
      have length := asks.length
      omega
    simp [long, short]

/-- What a reader of query names owes for a message. -/
def ReadsName (msg : Bytes) : Prop :=
  (∀ name, parseDnsQuery msg = some name →
      ∃ labels, Asks msg labels ∧ name = String.ofList (joinedName labels) ∧ name.length ≤ 253) ∧
    ∀ labels, Asks msg labels → (joinedName labels).length ≤ 253 → (parseDnsQuery msg).isSome

/-- The loop ends within the message, and the name read is as it should be unless it has exactly
254 characters. -/
theorem readsName_iff (msg : Bytes) :
    (∀ fuel, msg.length < fuel → (dnsLabels msg fuel 12 []).isSome ∧
        dnsLabels msg fuel 12 [] = dnsLabels msg (msg.length + 1) 12 []) ∧
      (ReadsName msg ↔ ¬∃ labels, Asks msg labels ∧ (joinedName labels).length = 254) := by
  constructor
  · intro fuel enough
    obtain ⟨rounds, rfl⟩ : ∃ rounds, fuel = rounds + 1 := ⟨fuel - 1, by omega⟩
    have ends := dnsLabels_ends msg rounds 12 [] (by omega)
    have endsToo := dnsLabels_ends msg msg.length 12 [] (by omega)
    obtain ⟨read, isRead⟩ := Option.isSome_iff_exists.mp ends
    obtain ⟨other, isOther⟩ := Option.isSome_iff_exists.mp endsToo
    refine ⟨ends, ?_⟩
    rw [isRead, isOther]
    congr 1
    ext chars
    have one : dnsLabels msg (rounds + 1) 12 [] = some (some chars) ↔ NamedFrom msg 12 [] chars :=
      dnsLabels_iff _ _ _ (by omega)
    have two : dnsLabels msg (msg.length + 1) 12 [] = some (some chars) ↔
        NamedFrom msg 12 [] chars := dnsLabels_iff _ _ _ (by omega)
    rw [isRead, Option.some.injEq] at one
    rw [isOther, Option.some.injEq] at two
    exact one.trans two.symm
  · constructor
    · rintro ⟨sound, _⟩ ⟨labels, asks, long⟩
      have read := (parseDnsQuery_iff msg _).mpr ⟨labels, asks, rfl, by omega⟩
      obtain ⟨_, _, _, short⟩ := sound _ read
      rw [String.length_ofList] at short
      omega
    · intro exact_fit
      constructor
      · intro name read
        obtain ⟨labels, asks, rfl, fits⟩ := (parseDnsQuery_iff msg name).mp read
        have other : (joinedName labels).length ≠ 254 := fun long => exact_fit ⟨labels, asks, long⟩
        refine ⟨labels, asks, rfl, ?_⟩
        rw [String.length_ofList]
        omega
      · intro labels asks short
        rw [(parseDnsQuery_iff msg _).mpr ⟨labels, asks, rfl, by omega⟩]
        rfl

/-- Four labels that make a name of 254 characters. -/
def longLabels : List Bytes :=
  [List.replicate 63 97, List.replicate 63 97, List.replicate 63 97, List.replicate 62 97]

def longQuery : Bytes :=
  [0x12, 0x34, 0x01, 0x00, 0, 1, 0, 0, 0, 0, 0, 0] ++ wireName longLabels ++ [0, 1, 0, 1]

theorem longName_read : ¬ReadsName longQuery := by
  have asks : Asks longQuery longLabels :=
    { query := by decide
      question := by decide
      named := by decide
      valid := by
        have label {n : Nat} (positive : 1 ≤ n) (short : n ≤ 63) :
            Label (List.replicate n 97) := by
          refine ⟨by rwa [List.length_replicate], by rwa [List.length_replicate], ?_⟩
          intro c member
          rw [List.eq_of_mem_replicate member]
          decide
        have three := label (show 1 ≤ 63 by omega) le_rfl
        have last := label (show 1 ≤ 62 by omega) (by omega)
        rw [longLabels, List.forall_mem_cons, List.forall_mem_cons, List.forall_mem_cons,
          List.forall_mem_cons]
        exact ⟨three, three, three, last, fun _ member => absurd member List.not_mem_nil⟩
      carried := ⟨[0, 1, 0, 1], rfl⟩ }
  have length : (joinedName longLabels).length = 254 := by decide +kernel
  rintro ⟨sound, _⟩
  obtain ⟨_, _, _, short⟩ :=
    sound _ ((parseDnsQuery_iff longQuery _).mpr ⟨longLabels, asks, rfl, by omega⟩)
  rw [String.length_ofList] at short
  omega

end PiAgents.Capture
