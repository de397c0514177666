import PiAgents.Lib.Runs
import PiAgents.Spooling.Reading

/-! Readers beside the calls of the spool: whatever position they go on from, repeated reads return
the unacknowledged entries from there on, each once and as it was appended. -/

namespace PiAgents.Spooling

namespace Spool

/-- What so many reads return, one after the other, and the position after them. -/
def reads (spool : Spool) (disk : Disk) (limits : Nat → Nat) (cursor : Cursor) :
    Nat → List (Cursor × Entry) × Cursor
  | 0 => ([], cursor)
  | calls + 1 =>
      let before := reads spool disk limits cursor calls
      let last := spool.read disk before.2 (limits calls)
      (before.1 ++ last.1, last.2)

theorem mem_reads {spool : Spool} {disk : Disk} {limits : Nat → Nat} {cursor : Cursor} {calls : Nat}
    {found : Cursor × Entry} (member : found ∈ (spool.reads disk limits cursor calls).1) :
    ∃ position limit, found ∈ (spool.read disk position limit).1 := by
  induction calls with
  | zero => cases member
  | succ calls ih =>
      rcases List.mem_append.mp member with earlier | last
      · exact ih earlier
      · exact ⟨_, _, last⟩

def waiting (spool : Spool) : List Nat := spool.segments.flatMap Segment.unackedSeqs

end Spool

/-- The number of the record at a position: those before it in its file are counted. -/
def seqAt (disk : Disk) (cursor : Cursor) : Nat :=
  cursor.segment +
    (readSegment (((disk.file cursor.segment).getD []).take cursor.offset)).1.length

section Repeated

variable {disk : Disk} {spool : Spool} {log : Log} (layout : Layout disk spool log)
  (recordable : ∀ kept ∈ log, ∀ entry ∈ kept.2, entry.Recordable) {cursor : Cursor}
  {ahead : List Entry} (stands : Stands log cursor ahead) (limits : Nat → Nat)

include layout recordable stands

/-- What the reads have returned and what is still ahead make up what was ahead at first. -/
theorem reads_stands (calls : Nat) : ∃ left',
    (spool.reads disk limits cursor calls).1.map Prod.snd ++ left' = ahead ∧
      Stands log (spool.reads disk limits cursor calls).2 left' := by
  induction calls with
  | zero => exact ⟨ahead, rfl, stands⟩
  | succ calls ih =>
      rcases ih with ⟨left', parts, place⟩
      change ∃ rest, ((spool.reads disk limits cursor calls).1 ++ (spool.read disk
        (spool.reads disk limits cursor calls).2 (limits calls)).1).map Prod.snd ++ rest = ahead ∧
          Stands log (spool.read disk (spool.reads disk limits cursor calls).2 (limits calls)).2 rest
      simp only [List.map_append, List.append_assoc]
      rcases read_stands layout recordable place (limits calls) with read | ⟨empty, nothing, read⟩
      · refine ⟨left'.drop (limits calls), ?_, .within read.next⟩
        rw [read.returned, List.take_append_drop]
        exact parts
      · refine ⟨[], ?_, ?_⟩
        · rw [read, ← parts, nothing]
          rfl
        · rw [read, empty]
          refine .gone ?_
          intro kept member
          cases member

theorem ahead_of_nothing {limit : Nat} (positive : 0 < limit)
    (nothing : (spool.read disk cursor limit).1 = []) : ahead = [] := by
  rcases read_stands layout recordable stands limit with read | ⟨_, none', _⟩
  · have returned := read.returned
    rw [nothing, List.map_nil] at returned
    rcases List.take_eq_nil_iff.mp returned.symm with zero | none'
    · omega
    · exact none'
  · exact none'

omit layout recordable stands in
theorem reads_length {calls : Nat}
    (some' : ∀ earlier < calls, (spool.read disk (spool.reads disk limits cursor earlier).2
      (limits earlier)).1 ≠ []) : calls ≤ (spool.reads disk limits cursor calls).1.length := by
  induction calls with
  | zero => exact Nat.zero_le _
  | succ calls ih =>
      have before := ih fun earlier less => some' earlier (Nat.lt_succ_of_lt less)
      have one := List.length_pos_iff.mpr (some' calls (Nat.lt_succ_self calls))
      change calls + 1 ≤ ((spool.reads disk limits cursor calls).1 ++ _).length
      rw [List.length_append]
      omega

theorem reads_all (positive : ∀ call, 0 < limits call) {calls : Nat}
    (nothing : (spool.read disk (spool.reads disk limits cursor calls).2 (limits calls)).1 = []) :
    (spool.reads disk limits cursor calls).1.map Prod.snd = ahead := by
  rcases reads_stands layout recordable stands limits calls with ⟨left', parts, place⟩
  have none' := ahead_of_nothing layout recordable place (positive calls) nothing
  rw [none', List.append_nil] at parts
  exact parts

theorem reads_end : ∃ calls ≤ ahead.length,
    (spool.read disk (spool.reads disk limits cursor calls).2 (limits calls)).1 = [] := by
  by_contra never
  have some' : ∀ earlier < ahead.length + 1,
      (spool.read disk (spool.reads disk limits cursor earlier).2 (limits earlier)).1 ≠ [] :=
    fun earlier less nothing => never ⟨earlier, Nat.le_of_lt_succ less, nothing⟩
  have many := reads_length limits some'
  rcases reads_stands layout recordable stands limits (ahead.length + 1) with ⟨left', parts, _⟩
  have lengths := congrArg List.length parts
  rw [List.length_append, List.length_map] at lengths
  omega

end Repeated

/-! Positions outlive the segments they were taken in. -/

abbrev Piece := Nat × List Entry

def Log.pieces (log : Log) : List Piece := log.map fun kept => (kept.1.firstSeq, kept.2)

/-- Every piece ends before the next one starts, and all before the next number. -/
structure Follows (pieces : List Piece) (next : Nat) : Prop where
  increasing : pieces.Pairwise fun a b => a.1 < b.1 ∧ a.1 + a.2.length ≤ b.1
  below : ∀ piece ∈ pieces, piece.1 + piece.2.length ≤ next

/-- A position and the number of the record there, behind which so many records are known. Its
segment is there, or all that is left comes after it. -/
inductive Located (pieces : List Piece) (next : Nat) (cursor : Cursor) (seq known : Nat) : Prop where
  | here {done todo : List Entry} (piece : (cursor.segment, done ++ todo) ∈ pieces)
      (offset : cursor.offset = (encodeAll done).length)
      (number : seq = cursor.segment + done.length) (enough : known ≤ todo.length)
  | gone (after : ∀ piece ∈ pieces, cursor.segment < piece.1 ∧ seq + known ≤ piece.1)
      (passed : cursor.segment < next ∧ seq + known ≤ next ∨
        cursor.segment = next ∧ cursor.offset = 0 ∧ seq = next ∧ known = 0)

namespace Located

variable {pieces front rest : List Piece} {next : Nat} {cursor : Cursor} {seq known : Nat}

theorem raise (located : Located pieces next cursor seq known) {higher : Nat}
    (above : next ≤ higher) : Located pieces higher cursor seq known := by
  cases located with
  | here piece offset number enough => exact .here piece offset number enough
  | gone after passed =>
      refine .gone after ?_
      rcases passed with ⟨before, within⟩ | ⟨same, start, number, none'⟩
      · left
        omega
      · by_cases equal : next = higher
        · right
          rw [← equal]
          exact ⟨same, start, number, none'⟩
        · left
          omega

theorem drop (located : Located (front ++ rest) next cursor seq known)
    (follows : Follows (front ++ rest) next) (filled : ∀ piece ∈ front, piece.2 ≠ []) :
    Located rest next cursor seq known := by
  have parts := List.pairwise_append.mp follows.increasing
  cases located with
  | @here done todo piece offset number enough =>
      rcases List.mem_append.mp piece with inFront | inRest
      · have below := follows.below _ piece
        have length : (done ++ todo).length = done.length + todo.length := List.length_append
        have positive := List.length_pos_iff.mpr (filled _ inFront)
        change cursor.segment + (done ++ todo).length ≤ next at below
        change 0 < (done ++ todo).length at positive
        refine .gone ?_ (Or.inl ?_)
        · intro other member
          have after := parts.2.2 _ inFront other member
          change cursor.segment < other.1 ∧ cursor.segment + (done ++ todo).length ≤ other.1 at after
          omega
        · omega
      · exact .here inRest offset number enough
  | gone after passed =>
      exact .gone (fun piece member => after piece (List.mem_append_right _ member)) passed

theorem newPiece (located : Located pieces next cursor seq known) :
    Located (pieces ++ [(next, [])]) next cursor seq known := by
  cases located with
  | here piece offset number enough =>
      exact .here (List.mem_append_left _ piece) offset number enough
  | gone after passed =>
      rcases passed with ⟨before, within⟩ | ⟨same, start, number, none'⟩
      · refine .gone ?_ (Or.inl ⟨before, within⟩)
        intro piece member
        rcases List.mem_append.mp member with old | new
        · exact after piece old
        · rw [List.mem_singleton.mp new]
          exact ⟨before, within⟩
      · have piece : (cursor.segment, ([] ++ [] : List Entry)) ∈ pieces ++ [(next, [])] := by
          rw [same]
          exact List.mem_append_right _ (List.mem_singleton_self _)
        refine .here piece start ?_ (Nat.le_of_eq none')
        rw [number, same]
        rfl

theorem push {name : Nat} {entries : List Entry} (entry : Entry)
    (located : Located (front ++ [(name, entries)]) next cursor seq known) :
    Located (front ++ [(name, entries ++ [entry])]) (next + 1) cursor seq known := by
  cases located with
  | @here done todo piece offset number enough =>
      rcases List.mem_append.mp piece with old | last
      · exact .here (List.mem_append_left _ old) offset number enough
      · have same := List.mem_singleton.mp last
        have segment : cursor.segment = name := congrArg Prod.fst same
        have parts : done ++ todo = entries := congrArg Prod.snd same
        have grown : (cursor.segment, done ++ (todo ++ [entry])) ∈
            front ++ [(name, entries ++ [entry])] := by
          rw [segment, ← List.append_assoc, parts]
          exact List.mem_append_right _ (List.mem_singleton_self _)
        refine .here grown offset number ?_
        rw [List.length_append]
        exact Nat.le_add_right_of_le enough
  | gone after passed =>
      refine .gone ?_ (Or.inl ?_)
      · intro piece member
        rcases List.mem_append.mp member with old | last
        · exact after piece (List.mem_append_left _ old)
        · rw [List.mem_singleton.mp last]
          exact after (name, entries) (List.mem_append_right _ (List.mem_singleton_self _))
      · omega

end Located

theorem Layout.follows {disk : Disk} {spool : Spool} {log : Log} (layout : Layout disk spool log) :
    Follows log.pieces spool.nextSeq := by
  constructor
  · apply List.pairwise_map.mpr
    apply layout.ordered.increasing.imp_of_mem
    intro first second inFirst _ after
    have filled := layout.ordered.nonempty first inFirst
    have count := (layout.ordered.holds first inFirst).count
    change first.1.firstSeq < second.1.firstSeq ∧
      first.1.firstSeq + first.2.length ≤ second.1.firstSeq
    omega
  · intro piece member
    rcases List.mem_map.mp member with ⟨kept, inLog, rfl⟩
    have below := layout.ordered.below kept inLog
    have count := (layout.ordered.holds kept inLog).count
    change kept.1.firstSeq + kept.2.length ≤ spool.nextSeq
    omega

/-- A run with readers: the calls so far, the entries appended, the positions that were handed out
and, with their entries, those of the entries returned. -/
structure ReaderRun where
  machine : Machine
  appended : List Entry
  cursors : List Cursor
  found : List (Cursor × Entry)

inductive ReaderStep where
  | call (call : Call)
  | rewind
  /-- A read from one of the positions handed out. -/
  | read (cursor : Nat) (limit : Nat)

namespace ReaderRun

def start : ReaderRun := ⟨⟨.empty, none⟩, [], [], []⟩

def added (m : Machine) : Call → List Entry
  | .append event => (m.perform (.append event)).appended.toList.map fun answer =>
      event.entry answer.1
  | _ => []

def step (h : ReaderRun) : ReaderStep → ReaderRun
  | .call call => { h with
      machine := h.machine.step call
      appended := h.appended ++ added h.machine call }
  | .rewind => { h with cursors := h.cursors ++ h.machine.spool.toList.map Spool.rewind }
  | .read cursor limit =>
      match h.machine.spool, h.cursors[cursor]? with
      | some spool, some position =>
          let read := spool.read h.machine.disk position limit
          { h with
            cursors := h.cursors ++ read.2 :: read.1.map Prod.fst
            found := h.found ++ read.1 }
      | _, _ => h

def ahead (h : ReaderRun) (spool : Spool) (cursor : Cursor) : List Entry :=
  h.appended.filter fun entry =>
    seqAt h.machine.disk cursor ≤ entry.seq ∧ entry.seq ∈ spool.waiting

/-- Repeated reads end, and when they do they have returned all that was ahead. -/
structure ReadsAll (h : ReaderRun) (spool : Spool) (cursor : Cursor) (limits : Nat → Nat) :
    Prop where
  ends : ∃ calls ≤ (h.ahead spool cursor).length, (spool.read h.machine.disk
    (spool.reads h.machine.disk limits cursor calls).2 (limits calls)).1 = []
  all : ∀ calls, (spool.read h.machine.disk
      (spool.reads h.machine.disk limits cursor calls).2 (limits calls)).1 = [] →
    (spool.reads h.machine.disk limits cursor calls).1.map Prod.snd = h.ahead spool cursor

structure ReadsBack (h : ReaderRun) : Prop where
  increasing : (h.appended.map (·.seq)).Pairwise (· < ·)
  complete : ∀ spool ∈ h.machine.spool, ∀ cursor ∈ h.cursors, ∀ limits : Nat → Nat,
    (∀ call, 0 < limits call) → h.ReadsAll spool cursor limits
  repeatable : ∀ spool ∈ h.machine.spool, ∀ found ∈ h.found, found.2.seq ∈ spool.waiting →
    ∀ limit, 0 < limit → (spool.read h.machine.disk found.1 limit).1.head? = some found

/-- The fields for the lengths of the key and of the body hold them. -/
def Records (h : ReaderRun) : ReaderStep → Prop
  | .call (.append event) => event.key.length < 65536 ∧ ∀ spool ∈ h.machine.spool,
      (entryBody (event.entry spool.nextSeq)).length < 2 ^ 32
  | _ => True

end ReaderRun

end PiAgents.Spooling
