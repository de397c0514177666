import PiAgents.Lib.Decimal
import PiAgents.Spooling.Calls

/-! Sequence numbers over any number of processes on one directory: the number in the sequence file
is above every number returned, and it never goes down. -/

namespace PiAgents.Spooling

private theorem digit_not_white {c : Char} (digit : c.isDigit = true) : isWhitespace c = false := by
  have bounds : 48 ≤ c.toNat ∧ c.toNat ≤ 57 := by
    simpa [Char.isDigit, UInt32.le_iff_toNat_le] using digit
  have all : ∀ n < 58, 48 ≤ n → ((9 ≤ n && n ≤ 13) || (8192 ≤ n && n ≤ 8202) ||
      [32, 133, 160, 5760, 8232, 8233, 8239, 8287, 12288].contains n) = false := by
    decide
  exact all c.toNat (Nat.lt_succ_of_le bounds.2) bounds.1

private theorem dropWhile_digits {digits rest : List Char} (nonempty : digits ≠ [])
    (all : ∀ c ∈ digits, c.isDigit = true) :
    (digits ++ rest).dropWhile isWhitespace = digits ++ rest := by
  cases digits with
  | nil => exact absurd rfl nonempty
  | cons first later =>
      rw [List.cons_append, List.dropWhile_cons, digit_not_white (all first (List.mem_cons_self ..))]
      rfl

theorem parseNumber_numberLine {number : Nat} (bound : number < 2 ^ 64) :
    parseNumber (numberLine number) = some number := by
  have text : (numberLine number).toList = Nat.toDigits 10 number ++ ['\n'] := by
    rw [numberLine, String.toList_append, Nat.toString_eq_repr, Nat.toList_repr]
    rfl
  have digits : ∀ c ∈ Nat.toDigits 10 number, c.isDigit = true := by
    intro c member
    exact Nat.isDigit_of_mem_toDigits (by decide) (by decide) member
  have nonempty : Nat.toDigits 10 number ≠ [] := Nat.toDigits_ne_nil
  have trimmed : (((numberLine number).toList.dropWhile isWhitespace).reverse.dropWhile
      isWhitespace).reverse = Nat.toDigits 10 number := by
    rw [text, dropWhile_digits nonempty digits, List.reverse_append]
    have kept : (Nat.toDigits 10 number).reverse.dropWhile isWhitespace =
        (Nat.toDigits 10 number).reverse := by
      rw [← List.append_nil (Nat.toDigits 10 number).reverse]
      apply dropWhile_digits (List.reverse_ne_nil_iff.mpr nonempty)
      intro c member
      exact digits c (List.mem_reverse.mp member)
    change (List.dropWhile _ ('\n' :: (Nat.toDigits 10 number).reverse)).reverse = _
    rw [List.dropWhile_cons]
    change (List.dropWhile _ (Nat.toDigits 10 number).reverse).reverse = _
    rw [kept, List.reverse_reverse]
  have unsigned : (Nat.toDigits 10 number).head? ≠ some '+' := by
    intro plus
    exact absurd (digits '+' (List.mem_of_mem_head? plus)) (by decide)
  have value : Nat.ofDigitChars 10 (Nat.toDigits 10 number) 0 = number :=
    Nat.ofDigitChars_ten_toDigits
  have decimal : (Nat.toDigits 10 number).all Char.isDigit = true := List.all_eq_true.mpr digits
  simp only [parseNumber, trimmed, unsigned, if_false, value]
  exact if_pos ⟨nonempty, decimal, bound⟩

theorem readNumber_numberLine {number : Nat} (bound : number < 2 ^ 64) :
    Spool.readNumber (some (numberLine number)) = number := by
  simp only [Spool.readNumber, Option.bind_some, parseNumber_numberLine bound, Option.getD_some]

/-- The sequence file and the file that is to replace it. -/
def Disk.numbers (disk : Disk) : Option String × Option String :=
  (disk.sequence, disk.sequenceTmp)

namespace Effect

def onNumbers (numbers : Option String × Option String) : Effect → Option String × Option String
  | .createSequenceTmp => (numbers.1, some "")
  | .writeSequenceTmp text => (numbers.1, some text)
  | .renameSequenceTmp => (numbers.2, none)
  | _ => numbers

def reserves : Effect → Bool
  | .createSequenceTmp => true
  | .writeSequenceTmp _ => true
  | .renameSequenceTmp => true
  | _ => false

theorem onNumbers_quiet {effect : Effect} (quiet : effect.reserves = false)
    (numbers : Option String × Option String) : effect.onNumbers numbers = numbers := by
  cases effect with
  | createSequenceTmp => cases quiet
  | writeSequenceTmp text => cases quiet
  | renameSequenceTmp => cases quiet
  | _ => rfl

end Effect

theorem numbers_apply (disk : Disk) (effect : Effect) :
    (disk.apply effect).numbers = effect.onNumbers disk.numbers := by
  cases effect with
  | createSegment name =>
      by_cases exists' : disk.segments.any (·.1 == name) = true
      · simp only [Disk.apply, exists', if_true, Effect.onNumbers]
      · simp only [Disk.apply, exists', Effect.onNumbers]
        rfl
  | _ => rfl

theorem numbers_applyAll (disk : Disk) (effects : List Effect) :
    (disk.applyAll effects).numbers =
      (effects.filter Effect.reserves).foldl (fun numbers effect => effect.onNumbers numbers)
        disk.numbers := by
  induction effects generalizing disk with
  | nil => rfl
  | cons effect rest ih =>
      have later : (disk.applyAll (effect :: rest)).numbers =
          ((disk.apply effect).applyAll rest).numbers := rfl
      rw [later, ih, numbers_apply, List.filter_cons]
      by_cases reserves : effect.reserves = true
      · rw [if_pos reserves, List.foldl_cons]
      · rw [if_neg reserves, Effect.onNumbers_quiet (Bool.not_eq_true _ ▸ reserves)]

theorem cut_reserves (effects : List Effect) (completed torn : Nat) :
    (Machine.cut effects completed torn).filter Effect.reserves <+:
      effects.filter Effect.reserves := by
  have rest : (effects[completed]?.bind (Machine.tornEffect torn)).toList.filter
      Effect.reserves = [] := by
    cases effects[completed]? with
    | none => rfl
    | some effect =>
        cases effect with
        | _ => rfl
  rw [Machine.cut, List.filter_append, rest, List.append_nil]
  exact (List.take_prefix completed effects).filter _

/-- The effects of the reservation of a block. -/
def reservation (blockEnd : Nat) : List Effect :=
  [.createSequenceTmp, .writeSequenceTmp (numberLine blockEnd), .renameSequenceTmp]

theorem sequence_of_part {part : List Effect} {blockEnd : Nat}
    (begins : part <+: reservation blockEnd) (numbers : Option String × Option String) :
    (part.foldl (fun numbers effect => effect.onNumbers numbers) numbers).1 = numbers.1 ∨
      (part.foldl (fun numbers effect => effect.onNumbers numbers) numbers).1 =
        some (numberLine blockEnd) := by
  have cases' : part = [] ∨ part = (reservation blockEnd).take 1 ∨
      part = (reservation blockEnd).take 2 ∨ part = reservation blockEnd := by
    have taken := List.prefix_iff_eq_take.mp begins
    have short : part.length ≤ 3 := begins.length_le
    have lengths : part.length = 0 ∨ part.length = 1 ∨ part.length = 2 ∨ part.length = 3 := by
      omega
    rcases lengths with zero | one | two | three
    · exact Or.inl (List.length_eq_zero_iff.mp zero)
    · rw [one] at taken
      exact Or.inr (Or.inl taken)
    · rw [two] at taken
      exact Or.inr (Or.inr (Or.inl taken))
    · rw [three] at taken
      exact Or.inr (Or.inr (Or.inr taken))
  rcases cases' with rfl | rfl | rfl | rfl
  · exact Or.inl rfl
  · exact Or.inl rfl
  · exact Or.inl rfl
  · exact Or.inr rfl

/-- What a call does to the sequence file: nothing, or the reservation of a block whose end is not
below the number in the file. -/
inductive Reserves (disk : Disk) (effects : List Effect) : Option Nat → Prop where
  | nothing (quiet : effects.filter Effect.reserves = []) : Reserves disk effects none
  | block {blockEnd : Nat} (made : effects.filter Effect.reserves = reservation blockEnd)
      (fits : blockEnd < 2 ^ 64) (above : Spool.readNumber disk.sequence ≤ blockEnd) :
      Reserves disk effects (some blockEnd)

namespace Reserves

variable {disk : Disk} {effects : List Effect} {blockEnd : Option Nat}

/-- The number in the sequence file does not go down, wherever the call stops. -/
theorem cut (reserves : Reserves disk effects blockEnd) (completed torn : Nat) :
    Spool.readNumber disk.sequence ≤
      Spool.readNumber (disk.applyAll (Machine.cut effects completed torn)).sequence := by
  have part := cut_reserves effects completed torn
  have after := numbers_applyAll disk (Machine.cut effects completed torn)
  cases reserves with
  | nothing quiet =>
      rw [quiet, List.prefix_nil] at part
      rw [part] at after
      have same := congrArg Prod.fst after
      exact Nat.le_of_eq (congrArg Spool.readNumber same).symm
  | block made fits above =>
      rw [made] at part
      have file := congrArg Prod.fst after
      rcases sequence_of_part part disk.numbers with old | new
      · rw [old] at file
        exact Nat.le_of_eq (congrArg Spool.readNumber file).symm
      · rw [new] at file
        change (disk.applyAll _).sequence = _ at file
        rw [file, readNumber_numberLine fits]
        exact above

theorem complete (reserves : Reserves disk effects blockEnd) :
    Spool.readNumber (disk.applyAll effects).sequence =
      blockEnd.getD (Spool.readNumber disk.sequence) := by
  have after := congrArg Prod.fst (numbers_applyAll disk effects)
  cases reserves with
  | nothing quiet =>
      rw [quiet] at after
      exact congrArg Spool.readNumber after
  | block made fits above =>
      rw [made] at after
      change (disk.applyAll effects).sequence = _ at after
      rw [after]
      exact readNumber_numberLine fits

end Reserves

theorem removals_quiet (segments : List Segment) :
    (Spool.removals segments).filter Effect.reserves = [] := by
  apply List.filter_eq_nil_iff.mpr
  intro effect member
  rcases List.mem_map.mp member with ⟨segment, _, rfl⟩
  exact Bool.false_ne_true

theorem recovery_quiet (files : List (Nat × List UInt8)) :
    (files.flatMap Spool.recoveryEffects).filter Effect.reserves = [] := by
  apply List.filter_eq_nil_iff.mpr
  intro effect member
  rcases List.mem_flatMap.mp member with ⟨file, _, inEffects⟩
  unfold Spool.recoveryEffects at inEffects
  split at inEffects
  · rw [List.mem_singleton.mp inEffects]
    exact Bool.false_ne_true
  · split at inEffects
    · rw [List.mem_singleton.mp inEffects]
      exact Bool.false_ne_true
    · cases inEffects

theorem open_reserves (config : SpoolConfig) (disk : Disk) :
    ∃ blockEnd, Reserves disk (Spool.open config disk).1 blockEnd ∧
      ∀ spool ∈ (Spool.open config disk).2, blockEnd = some spool.reservedUntil ∧
        Spool.readNumber disk.sequence ≤ spool.nextSeq ∧ spool.nextSeq ≤ spool.reservedUntil := by
  by_cases small : config.maxBytes < 2 * config.segmentBytes
  · have refused : Spool.open config disk = ([], none) := if_pos small
    rw [refused]
    refine ⟨none, .nothing rfl, ?_⟩
    intro spool opened
    cases opened
  · by_cases fits : max (Spool.readNumber disk.sequence)
        (((Spool.maxSeq disk.sorted).map (· + 1)).getD 0) + sequenceBlock < 2 ^ 64
    · simp only [Spool.open, small, if_false, Spool.reserveSequences, fits, if_true]
      refine ⟨_, .block ?_ fits ?_, ?_⟩
      · rw [List.filter_append, List.filter_append, recovery_quiet, Spool.dropAckedFront,
          removals_quiet]
        rfl
      · exact Nat.le_add_right_of_le (Nat.le_max_left _ _)
      · intro spool opened
        cases opened
        exact ⟨rfl, Nat.le_max_left _ _, Nat.le_add_right _ _⟩
    · simp only [Spool.open, small, if_false, Spool.reserveSequences, fits]
      refine ⟨none, .nothing (recovery_quiet _), ?_⟩
      intro spool opened
      cases opened

section AppendReserved

variable (spool : Spool) (event : Spool.Event)

theorem appendReserved_quiet : (spool.appendReserved event).1.filter Effect.reserves = [] := by
  have written : ∀ writer : Option Nat, (writer.toList.map fun name =>
      Effect.appendSegment name (encodeEntry (event.entry spool.nextSeq))).filter
        Effect.reserves = [] := by
    intro writer
    cases writer with
    | none => rfl
    | some name => rfl
  unfold Spool.appendReserved
  by_cases rotates : spool.needsRotation (encodeEntry (event.entry spool.nextSeq)).length = true
  · simp only [rotates, if_true, List.filter_append, written, Spool.enforceLimit, removals_quiet]
    rfl
  · simp only [rotates, List.filter_append, written, Spool.enforceLimit, removals_quiet]
    rfl

theorem appendReserved_nextSeq :
    (spool.appendReserved event).2.1.nextSeq = spool.nextSeq + 1 := by
  unfold Spool.appendReserved
  by_cases rotates : spool.needsRotation (encodeEntry (event.entry spool.nextSeq)).length = true
  · simp only [rotates, if_true, Spool.enforceLimit, Spool.rotate]
  · simp only [rotates, Spool.enforceLimit]
    rfl

theorem appendReserved_reservedUntil :
    (spool.appendReserved event).2.1.reservedUntil = spool.reservedUntil := by
  unfold Spool.appendReserved
  by_cases rotates : spool.needsRotation (encodeEntry (event.entry spool.nextSeq)).length = true
  · simp only [rotates, if_true, Spool.enforceLimit, Spool.rotate]
  · simp only [rotates, Spool.enforceLimit]
    rfl

end AppendReserved

theorem append_reserves (disk : Disk) (spool : Spool) (event : Spool.Event)
    (inFile : Spool.readNumber disk.sequence = spool.reservedUntil) :
    ∃ blockEnd, Reserves disk (spool.append event).1 blockEnd ∧
      ∀ appended ∈ (spool.append event).2,
        blockEnd.getD spool.reservedUntil = appended.1.reservedUntil ∧
        appended.2.1 = spool.nextSeq ∧ appended.1.nextSeq = spool.nextSeq + 1 ∧
        appended.1.nextSeq ≤ appended.1.reservedUntil := by
  by_cases used : spool.reservedUntil ≤ spool.nextSeq
  · by_cases fits : spool.nextSeq + sequenceBlock < 2 ^ 64
    · simp only [Spool.append, used, if_true, Spool.reserveSequences, fits]
      refine ⟨_, .block ?_ fits ?_, ?_⟩
      · rw [List.filter_append, appendReserved_quiet, List.append_nil]
        rfl
      · rw [inFile]
        exact Nat.le_add_right_of_le used
      · intro appended given
        cases given
        rw [appendReserved_reservedUntil, appendReserved_nextSeq]
        refine ⟨rfl, rfl, rfl, ?_⟩
        exact Nat.add_le_add_left (by decide) spool.nextSeq
    · simp only [Spool.append, used, if_true, Spool.reserveSequences, fits, if_false]
      refine ⟨none, .nothing rfl, ?_⟩
      intro appended given
      cases given
  · simp only [Spool.append, used, if_false]
    refine ⟨none, .nothing (appendReserved_quiet spool event), ?_⟩
    intro appended given
    cases given
    rw [appendReserved_reservedUntil, appendReserved_nextSeq]
    exact ⟨rfl, rfl, rfl, Nat.lt_of_not_le used⟩

/-- The calls made on a directory and the crashes, with the sequence numbers returned so far. -/
structure History where
  machine : Machine
  returned : List Nat

inductive Occurrence where
  | call (call : Call)
  /-- The process dies within the call after these effects. -/
  | crash (call : Call) (completed torn : Nat)

namespace History

def start (disk : Disk) : History := ⟨⟨disk, none⟩, []⟩

def step (h : History) : Occurrence → History
  | .call call =>
      let performed := h.machine.perform call
      ⟨⟨h.machine.disk.applyAll performed.effects, performed.spool⟩,
        h.returned ++ performed.appended.toList.map (·.1)⟩
  | .crash call completed torn =>
      let performed := h.machine.perform call
      ⟨⟨h.machine.disk.applyAll (Machine.cut performed.effects completed torn), none⟩, h.returned⟩

/-- Every number returned is below the one in the file, and the open spool goes on above them. -/
structure Fresh (h : History) : Prop where
  increasing : h.returned.Pairwise (· < ·)
  below : ∀ seq ∈ h.returned, seq < Spool.readNumber h.machine.disk.sequence
  next : ∀ spool ∈ h.machine.spool, (∀ seq ∈ h.returned, seq < spool.nextSeq) ∧
    spool.nextSeq ≤ spool.reservedUntil ∧
    Spool.readNumber h.machine.disk.sequence = spool.reservedUntil

theorem fresh_start (disk : Disk) : (start disk).Fresh := by
  constructor
  · exact List.Pairwise.nil
  · intro seq member
    cases member
  · intro spool opened
    cases opened

theorem Fresh.advance {h : History} (fresh : h.Fresh) (performed : Performed)
    {blockEnd : Option Nat} (reserves : Reserves h.machine.disk performed.effects blockEnd)
    (next : ∀ spool ∈ performed.spool,
      (∀ seq ∈ h.returned ++ performed.appended.toList.map (·.1), seq < spool.nextSeq) ∧
      spool.nextSeq ≤ spool.reservedUntil ∧
      blockEnd.getD (Spool.readNumber h.machine.disk.sequence) = spool.reservedUntil)
    (appended : ∀ answer ∈ performed.appended,
      (∀ seq ∈ h.returned, seq < answer.1) ∧ ∃ spool, performed.spool = some spool) :
    Fresh ⟨⟨h.machine.disk.applyAll performed.effects, performed.spool⟩,
      h.returned ++ performed.appended.toList.map (·.1)⟩ := by
  have file := reserves.complete
  have grown : Spool.readNumber h.machine.disk.sequence ≤
      Spool.readNumber (h.machine.disk.applyAll performed.effects).sequence := by
    rw [file]
    cases reserves with
    | nothing quiet => exact Nat.le_refl _
    | block made fits above => exact above
  have below : ∀ seq ∈ h.returned,
      seq < Spool.readNumber (h.machine.disk.applyAll performed.effects).sequence :=
    fun seq member => Nat.lt_of_lt_of_le (fresh.below seq member) grown
  have reached : ∀ spool ∈ performed.spool,
      Spool.readNumber (h.machine.disk.applyAll performed.effects).sequence =
        spool.reservedUntil :=
    fun spool opened => file.trans (next spool opened).2.2
  cases answer : performed.appended with
  | none =>
      rw [answer] at next
      simp only [Option.toList_none, List.map_nil, List.append_nil] at next ⊢
      constructor
      · exact fresh.increasing
      · exact below
      · intro spool opened
        exact ⟨(next spool opened).1, (next spool opened).2.1, reached spool opened⟩
  | some given =>
      rw [answer] at next
      rcases appended given answer with ⟨above, spool, opened⟩
      have isLast : given.1 ∈ h.returned ++ (some given).toList.map (·.1) :=
        List.mem_append_right _ (List.mem_singleton_self _)
      constructor
      · apply List.pairwise_append.mpr
        refine ⟨fresh.increasing, List.pairwise_singleton _ _, ?_⟩
        intro seq member last single
        rw [List.mem_singleton.mp single]
        exact above seq member
      · intro seq member
        rcases List.mem_append.mp member with old | new
        · exact below seq old
        · rw [List.mem_singleton.mp new, reached spool opened]
          exact Nat.lt_of_lt_of_le ((next spool opened).1 _ isLast) (next spool opened).2.1
      · intro other alsoOpened
        exact ⟨(next other alsoOpened).1, (next other alsoOpened).2.1, reached other alsoOpened⟩

theorem Fresh.keep {h : History} (fresh : h.Fresh) {effects : List Effect} {left : Option Spool}
    (quiet : effects.filter Effect.reserves = [])
    (same : ∀ spool ∈ left, ∃ before, h.machine.spool = some before ∧
      spool.nextSeq = before.nextSeq ∧ spool.reservedUntil = before.reservedUntil) :
    Fresh ⟨⟨h.machine.disk.applyAll effects, left⟩, h.returned⟩ := by
  have advanced := fresh.advance ⟨effects, left, none⟩ (.nothing quiet) ?_ ?_
  · simp only [Option.toList_none, List.map_nil, List.append_nil] at advanced
    exact advanced
  · intro spool opened
    rcases same spool opened with ⟨before, held, nextSeq, reservedUntil⟩
    have next := fresh.next before held
    rw [nextSeq, reservedUntil]
    simp only [Option.toList_none, List.map_nil, List.append_nil]
    exact ⟨next.1, next.2.1, next.2.2⟩
  · intro answer given
    cases given

/-- The call reserves in order, and completing it keeps the numbers fresh. -/
def Performs (h : History) (call : Call) : Prop :=
  (∃ blockEnd, Reserves h.machine.disk (h.machine.perform call).effects blockEnd) ∧
    (h.step (.call call)).Fresh

theorem Fresh.quiet {h : History} (fresh : h.Fresh) {call : Call} {effects : List Effect}
    {left : Option Spool} (performed : h.machine.perform call = ⟨effects, left, none⟩)
    (quiet : effects.filter Effect.reserves = [])
    (same : ∀ spool ∈ left, ∃ before, h.machine.spool = some before ∧
      spool.nextSeq = before.nextSeq ∧ spool.reservedUntil = before.reservedUntil) :
    h.Performs call := by
  rw [Performs, History.step, performed]
  refine ⟨⟨none, .nothing quiet⟩, ?_⟩
  simp only [Option.toList_none, List.map_nil, List.append_nil]
  exact fresh.keep quiet same

theorem Fresh.unopened {h : History} (fresh : h.Fresh) {call : Call}
    (performed : h.machine.perform call = ⟨[], none, none⟩) : h.Performs call := by
  apply fresh.quiet performed rfl
  intro spool left
  cases left

theorem Fresh.opens {h : History} (fresh : h.Fresh) (config : SpoolConfig) :
    h.Performs (.open config) := by
  rcases open_reserves config h.machine.disk with ⟨blockEnd, reserves, opens⟩
  refine ⟨⟨blockEnd, reserves⟩, fresh.advance _ reserves ?_ ?_⟩
  · intro spool opened
    rcases opens spool opened with ⟨reserved, fromFile, ordered⟩
    refine ⟨?_, ordered, ?_⟩
    · intro seq member
      have returned : seq ∈ h.returned := by
        simpa [Machine.perform] using member
      exact Nat.lt_of_lt_of_le (fresh.below seq returned) fromFile
    · rw [reserved]
      rfl
  · intro answer given
    cases given

theorem Fresh.appends {h : History} (fresh : h.Fresh) (event : Spool.Event) :
    h.Performs (.append event) := by
  cases opened : h.machine.spool with
  | none =>
      apply fresh.unopened
      simp only [Machine.perform, opened]
  | some spool =>
      have next := fresh.next spool opened
      rcases append_reserves h.machine.disk spool event next.2.2 with ⟨blockEnd, reserves, appends⟩
      have performed : h.machine.perform (.append event) = ⟨(spool.append event).1,
          (spool.append event).2.map (·.1), (spool.append event).2.map (·.2)⟩ := by
        simp only [Machine.perform, opened]
      rw [Performs, History.step, performed]
      refine ⟨⟨blockEnd, reserves⟩, fresh.advance _ reserves ?_ ?_⟩
      · intro after left
        rcases Option.map_eq_some_iff.mp left with ⟨answer, given, rfl⟩
        rcases appends answer given with ⟨reserved, seq, nextSeq, ordered⟩
        refine ⟨?_, ordered, ?_⟩
        · intro number member
          rw [nextSeq]
          rcases List.mem_append.mp member with old | new
          · exact Nat.lt_succ_of_lt (next.1 number old)
          · rw [given] at new
            simp only [Option.map_some, Option.toList_some, List.map_cons, List.map_nil,
              List.mem_singleton] at new
            rw [new, seq]
            exact Nat.lt_succ_self _
        · rw [next.2.2]
          exact reserved
      · intro answer given
        rcases Option.map_eq_some_iff.mp given with ⟨whole, appended, rfl⟩
        refine ⟨?_, whole.1, ?_⟩
        · intro number member
          rw [(appends whole appended).2.1]
          exact next.1 number member
        · rw [appended]
          rfl

theorem Fresh.acks {h : History} (fresh : h.Fresh) (seq : Nat) : h.Performs (.ack seq) := by
  cases opened : h.machine.spool with
  | none =>
      apply fresh.unopened
      simp only [Machine.perform, opened]
  | some spool =>
      have quiet : (spool.ack seq).1.filter Effect.reserves = [] := by
        by_cases known : spool.segments.any (·.contains seq) = true
        · simp only [Spool.ack, known, if_true, Spool.dropAckedFront, removals_quiet]
        · simp only [Spool.ack, known]
          rfl
      have numbers : (spool.ack seq).2.nextSeq = spool.nextSeq ∧
          (spool.ack seq).2.reservedUntil = spool.reservedUntil := by
        by_cases known : spool.segments.any (·.contains seq) = true
        · simp only [Spool.ack, known, if_true, Spool.dropAckedFront, and_self]
        · simp only [Spool.ack, known]
          exact ⟨rfl, rfl⟩
      have performed : h.machine.perform (.ack seq) =
          ⟨(spool.ack seq).1, some (spool.ack seq).2, none⟩ := by
        simp only [Machine.perform, opened]
      apply fresh.quiet performed quiet
      intro after left
      cases left
      exact ⟨spool, opened, numbers⟩

theorem Fresh.syncs {h : History} (fresh : h.Fresh) : h.Performs .sync := by
  cases opened : h.machine.spool with
  | none =>
      apply fresh.unopened
      simp only [Machine.perform, opened]
  | some spool =>
      have performed : h.machine.perform .sync = ⟨spool.sync, some spool, none⟩ := by
        simp only [Machine.perform, opened]
      apply fresh.quiet performed rfl
      intro after left
      cases left
      exact ⟨spool, opened, rfl, rfl⟩

/-- Whatever the call is, it reserves in order, and completing it keeps the numbers fresh. -/
theorem Fresh.perform {h : History} (fresh : h.Fresh) (call : Call) : h.Performs call := by
  cases call with
  | «open» config => exact fresh.opens config
  | append event => exact fresh.appends event
  | ack seq => exact fresh.acks seq
  | sync => exact fresh.syncs

theorem Fresh.step {h : History} (fresh : h.Fresh) (occurrence : Occurrence) :
    (h.step occurrence).Fresh := by
  cases occurrence with
  | call call => exact (fresh.perform call).2
  | crash call completed torn =>
      rcases (fresh.perform call).1 with ⟨blockEnd, reserves⟩
      constructor
      · exact fresh.increasing
      · intro seq member
        exact Nat.lt_of_lt_of_le (fresh.below seq member) (reserves.cut completed torn)
      · intro spool opened
        cases opened

theorem Fresh.run {h : History} (fresh : h.Fresh) (occurrences : List Occurrence) :
    (Runs.run History.step h occurrences).Fresh := by
  induction occurrences generalizing h with
  | nil => exact fresh
  | cons occurrence rest ih => exact ih (fresh.step occurrence)

end History

/-- Over any processes on one directory, stopped anywhere, the numbers returned by the appends
increase. -/
theorem sequences_never_reused (disk : Disk) (occurrences : List Occurrence) :
    (Runs.run History.step (History.start disk) occurrences).returned.Pairwise (· < ·) :=
  ((History.fresh_start disk).run occurrences).increasing

end PiAgents.Spooling
