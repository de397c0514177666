import PiAgents.Spooling.Readers

/-! In every run with readers, what is read from a position handed out is what was appended and is
still unacknowledged. -/

namespace PiAgents.Spooling

section Numbers

variable {segment : Segment} {done todo : List Entry}

theorem seq_of_done (holds : Holds segment (done ++ todo)) :
    (∀ entry ∈ done, segment.firstSeq ≤ entry.seq ∧ entry.seq < segment.firstSeq + done.length) ∧
    ∀ entry ∈ todo, segment.firstSeq + done.length ≤ entry.seq ∧
      entry.seq < segment.firstSeq + segment.count := by
  have count : segment.count = done.length + todo.length := by
    rw [holds.count, List.length_append]
  have numbered := holds.numbered
  rw [Segment.seqs, count, ← List.range'_append_1, List.map_append] at numbered
  rcases List.append_inj numbered (by rw [List.length_map, List.length_range']) with ⟨first, last⟩
  constructor
  · intro entry member
    have inRange := List.mem_map_of_mem (f := fun entry : Entry => entry.seq) member
    rw [first, List.mem_range'_1] at inRange
    exact inRange
  · intro entry member
    have inRange := List.mem_map_of_mem (f := fun entry : Entry => entry.seq) member
    rw [last, List.mem_range'_1] at inRange
    omega

theorem seq_of_entry {entries : List Entry} (holds : Holds segment entries) :
    ∀ entry ∈ entries, segment.firstSeq ≤ entry.seq ∧
      entry.seq < segment.firstSeq + segment.count := by
  intro entry member
  have inSeqs := List.mem_map_of_mem (f := fun entry : Entry => entry.seq) member
  rw [holds.numbered, Segment.seqs, List.mem_range'_1] at inSeqs
  exact inSeqs

theorem seq_of_next {entry : Entry} (holds : Holds segment (done ++ entry :: todo)) :
    entry.seq = segment.firstSeq + done.length := by
  have split : done ++ entry :: todo = (done ++ [entry]) ++ todo := List.append_cons ..
  have from' := (seq_of_done holds).2 entry List.mem_cons_self
  rw [split] at holds
  have before := (seq_of_done holds).1 entry
    (List.mem_append_right _ (List.mem_singleton_self _))
  rw [List.length_append, List.length_singleton] at before
  omega

end Numbers

namespace Layout

variable {disk : Disk} {spool : Spool} {log : Log}

theorem entry_contained (layout : Layout disk spool log) {kept : Segment × List Entry}
    (member : kept ∈ log) {entry : Entry} (inEntries : entry ∈ kept.2) :
    kept.1.contains entry.seq = true := by
  have inSeqs := List.mem_map_of_mem (f := fun entry : Entry => entry.seq) inEntries
  rw [(layout.ordered.holds kept member).numbered] at inSeqs
  exact (kept.1.mem_seqs entry.seq).mp inSeqs

theorem wants_iff (layout : Layout disk spool log) {kept : Segment × List Entry}
    (member : kept ∈ log) {entry : Entry} (inEntries : entry ∈ kept.2) :
    kept.1.wants entry = true ↔ entry.seq ∈ kept.1.unackedSeqs := by
  have inside := layout.entry_contained member inEntries
  rw [Segment.wants, Segment.mem_unackedSeqs, inside, Bool.true_and, Bool.not_eq_true']
  exact (and_iff_right rfl).symm

theorem mem_waiting (layout : Layout disk spool log) (seq : Nat) :
    seq ∈ spool.waiting ↔ ∃ kept ∈ log, seq ∈ kept.1.unackedSeqs := by
  rw [Spool.waiting, layout.segments, Log.segments, List.flatMap_map]
  exact List.mem_flatMap

theorem entries_sorted (layout : Layout disk spool log) :
    (log.flatMap Prod.snd).Pairwise fun a b => a.seq < b.seq := by
  have ordered := layout.ordered
  clear layout
  induction log with
  | nil => exact List.Pairwise.nil
  | cons kept rest ih =>
      have holds := ordered.holds kept List.mem_cons_self
      have own : kept.2.Pairwise fun a b => a.seq < b.seq := by
        have range : kept.1.seqs.Pairwise (· < ·) := List.pairwise_lt_range' 1
        rw [← holds.numbered] at range
        exact List.pairwise_map.mp range
      apply List.pairwise_append.mpr
      refine ⟨own, ih ordered.tail, ?_⟩
      intro entry inKept other inRest
      rcases List.mem_flatMap.mp inRest with ⟨later, member, inLater⟩
      have laterHolds := ordered.holds later (List.mem_cons_of_mem _ member)
      have after := (List.pairwise_cons.mp ordered.increasing).1 later member
      have below := seq_of_entry holds entry inKept
      have above := seq_of_entry laterHolds other inLater
      omega

end Layout

/-- What the run knows agrees with the pieces: the entries there were appended, and the positions
are located. -/
structure ReaderRun.Keeps (h : ReaderRun) (pieces : List Piece) (next : Nat) : Prop where
  increasing : (h.appended.map (·.seq)).Pairwise (· < ·)
  below : ∀ entry ∈ h.appended, entry.seq < next
  short : ∀ entry ∈ h.appended, entry.key.length < 65536
  held : ∀ piece ∈ pieces, ∀ entry ∈ piece.2, entry ∈ h.appended
  cursors : ∀ cursor ∈ h.cursors, ∃ seq, Located pieces next cursor seq 0
  found : ∀ found ∈ h.found, found.2 ∈ h.appended ∧ Located pieces next found.1 found.2.seq 1

namespace ReaderRun.Keeps

variable {h : ReaderRun} {pieces front rest : List Piece} {next : Nat}

theorem same_entry (keeps : h.Keeps pieces next) {one other : Entry} (first : one ∈ h.appended)
    (second : other ∈ h.appended) (same : one.seq = other.seq) : one = other := by
  have distinct : (h.appended.map (·.seq)).Nodup := keeps.increasing.imp Nat.ne_of_lt
  exact List.inj_on_of_nodup_map distinct first second same

end ReaderRun.Keeps

theorem Log.pending_sublist (log : Log) : List.Sublist log.pending (log.flatMap Prod.snd) := by
  induction log with
  | nil => exact List.Sublist.refl _
  | cons kept rest ih => exact List.filter_sublist.append ih

section Ahead

variable {h : ReaderRun} {spool : Spool} {log : Log} {pieces : List Piece} {next : Nat}

theorem ahead_of_members (keeps : h.Keeps pieces next) {cursor : Cursor} {entries : List Entry}
    (sorted : entries.Pairwise fun a b => a.seq < b.seq)
    (members : ∀ entry, entry ∈ entries ↔ entry ∈ h.appended ∧
      seqAt h.machine.disk cursor ≤ entry.seq ∧ entry.seq ∈ spool.waiting) :
    entries = h.ahead spool cursor := by
  have appended : h.appended.Pairwise fun a b => a.seq < b.seq :=
    List.pairwise_map.mp keeps.increasing
  have filtered : (h.ahead spool cursor).Pairwise fun a b => a.seq < b.seq :=
    appended.sublist List.filter_sublist
  have distinct : ∀ list : List Entry, list.Pairwise (fun a b => a.seq < b.seq) → list.Nodup := by
    intro list order
    apply order.imp
    intro a b less same
    rw [same] at less
    exact Nat.lt_irrefl _ less
  have perm : List.Perm entries (h.ahead spool cursor) := by
    apply (List.perm_ext_iff_of_nodup (distinct _ sorted) (distinct _ filtered)).mpr
    intro entry
    rw [members, ReaderRun.ahead, List.mem_filter, decide_eq_true_eq]
  apply perm.eq_of_pairwise _ sorted filtered
  intro a b _ _ less more
  exact absurd (Nat.lt_trans less more) (Nat.lt_irrefl _)

variable (layout : Layout h.machine.disk spool log) (keeps : h.Keeps log.pieces next)

include layout keeps

theorem held_of_waiting {entry : Entry} (appended : entry ∈ h.appended)
    (waits : entry.seq ∈ spool.waiting) :
    ∃ kept ∈ log, entry ∈ kept.2 ∧ kept.1.wants entry = true := by
  rcases (layout.mem_waiting entry.seq).mp waits with ⟨kept, member, unacked⟩
  have inside := ((kept.1.mem_unackedSeqs entry.seq).mp unacked).1
  have inSeqs := (kept.1.mem_seqs entry.seq).mpr inside
  rw [← (layout.ordered.holds kept member).numbered] at inSeqs
  rcases List.mem_map.mp inSeqs with ⟨other, inEntries, same⟩
  have otherAppended := keeps.held _ (List.mem_map_of_mem member) other inEntries
  have isEntry := keeps.same_entry otherAppended appended same
  rw [isEntry] at inEntries
  exact ⟨kept, member, inEntries, (layout.wants_iff member inEntries).mpr unacked⟩

theorem waiting_of_wanted {kept : Segment × List Entry} (member : kept ∈ log) {entry : Entry}
    (inEntries : entry ∈ kept.2) (wanted : kept.1.wants entry = true) :
    entry ∈ h.appended ∧ entry.seq ∈ spool.waiting :=
  ⟨keeps.held _ (List.mem_map_of_mem member) entry inEntries,
    (layout.mem_waiting entry.seq).mpr
      ⟨kept, member, (layout.wants_iff member inEntries).mp wanted⟩⟩

omit keeps in
theorem seqAt_within (readable : ∀ kept ∈ log, ∀ entry ∈ kept.2, entry.Fits) {cursor : Cursor}
    {kept : Segment × List Entry} (member : kept ∈ log) {done todo : List Entry}
    (entries : kept.2 = done ++ todo) (segment : cursor.segment = kept.1.firstSeq)
    (offset : cursor.offset = (encodeAll done).length) :
    seqAt h.machine.disk cursor = kept.1.firstSeq + done.length := by
  have path : kept.1.path = cursor.segment :=
    (layout.ordered.holds kept member).path.trans segment.symm
  have file := layout.file member
  rw [path] at file
  have fits : ∀ entry ∈ done, entry.Fits := by
    intro entry inDone
    apply readable kept member
    rw [entries]
    exact List.mem_append_left _ inDone
  have read := readSegment_encodeAll fits readFrame_nil
  rw [List.append_nil] at read
  rw [seqAt, file, Option.getD_some, entries, encodeAll_append, offset, List.take_left, read,
    List.length_map, segment]

omit keeps in
theorem seqAt_gone {cursor : Cursor} (after : ∀ kept ∈ log, cursor.segment < kept.1.firstSeq) :
    seqAt h.machine.disk cursor = cursor.segment := by
  have none' : h.machine.disk.file cursor.segment = none := by
    unfold Disk.file
    apply List.lookup_eq_none_iff.mpr
    intro file member
    rw [layout.files] at member
    rcases List.mem_map.mp member with ⟨kept, inLog, rfl⟩
    have path := (layout.ordered.holds kept inLog).path
    have later := after kept inLog
    apply bne_iff_ne.mpr
    change cursor.segment ≠ kept.1.path
    omega
  rw [seqAt, none', Option.getD_none, List.take_nil]
  rfl

section Here

variable {front rest : Log} {kept : Segment × List Entry} {done todo : List Entry}
  (parts : log = front ++ kept :: rest) (entries : kept.2 = done ++ todo)

include parts entries

/-- What is wanted of the records left in a segment and of the segments behind it waits, and its
number is not below the first of these records. -/
theorem waiting_of_left {entry : Entry}
    (inAhead : entry ∈ todo.filter kept.1.wants ++ Log.pending rest) :
    entry ∈ h.appended ∧ kept.1.firstSeq + done.length ≤ entry.seq ∧ entry.seq ∈ spool.waiting := by
  have member : kept ∈ log := by
    rw [parts]
    exact List.mem_append_right _ List.mem_cons_self
  have holds := layout.ordered.holds kept member
  rw [entries] at holds
  rcases List.mem_append.mp inAhead with here | later
  · rcases List.mem_filter.mp here with ⟨inTodo, wanted⟩
    have inEntries : entry ∈ kept.2 := by
      rw [entries]
      exact List.mem_append_right _ inTodo
    have waits := waiting_of_wanted layout keeps member inEntries wanted
    exact ⟨waits.1, ((seq_of_done holds).2 entry inTodo).1, waits.2⟩
  · rcases List.mem_flatMap.mp later with ⟨other, isLater, inOther⟩
    rcases List.mem_filter.mp inOther with ⟨inEntries, wanted⟩
    have inLog : other ∈ log := by
      rw [parts]
      exact List.mem_append_right _ (List.mem_cons_of_mem _ isLater)
    have waits := waiting_of_wanted layout keeps inLog inEntries wanted
    have from' := seq_of_entry (layout.ordered.holds other inLog) entry inEntries
    have increasing := layout.ordered.increasing
    rw [parts] at increasing
    have orders := List.pairwise_append.mp increasing
    have after := (List.pairwise_cons.mp orders.2.1).1 other isLater
    have count := holds.count
    rw [List.length_append] at count
    refine ⟨waits.1, ?_, waits.2⟩
    omega

theorem left_of_waiting {entry : Entry} (appended : entry ∈ h.appended)
    (from' : kept.1.firstSeq + done.length ≤ entry.seq) (waits : entry.seq ∈ spool.waiting) :
    entry ∈ todo.filter kept.1.wants ++ Log.pending rest := by
  rcases held_of_waiting layout keeps appended waits with ⟨other, isHeld, inEntries, wanted⟩
  have range := seq_of_entry (layout.ordered.holds other isHeld) entry inEntries
  have increasing := layout.ordered.increasing
  rw [parts] at increasing isHeld
  have orders := List.pairwise_append.mp increasing
  rcases List.mem_append.mp isHeld with earlier | later
  · have before := orders.2.2 other earlier kept List.mem_cons_self
    omega
  · rcases List.mem_cons.mp later with rfl | behind
    · have member : other ∈ log := by
        rw [parts]
        exact List.mem_append_right _ List.mem_cons_self
      have holds := layout.ordered.holds other member
      rw [entries] at inEntries holds
      rcases List.mem_append.mp inEntries with inDone | inTodo
      · have before := ((seq_of_done holds).1 entry inDone).2
        omega
      · exact List.mem_append_left _ (List.mem_filter.mpr ⟨inTodo, wanted⟩)
    · have inPending : entry ∈ Log.pending rest := List.mem_flatMap.mpr
        ⟨other, behind, List.mem_filter.mpr ⟨inEntries, wanted⟩⟩
      exact List.mem_append_right _ inPending

theorem ahead_here (readable : ∀ kept ∈ log, ∀ entry ∈ kept.2, entry.Fits) {cursor : Cursor}
    (segment : cursor.segment = kept.1.firstSeq)
    (offset : cursor.offset = (encodeAll done).length) :
    todo.filter kept.1.wants ++ Log.pending rest = h.ahead spool cursor := by
  have member : kept ∈ log := by
    rw [parts]
    exact List.mem_append_right _ List.mem_cons_self
  apply ahead_of_members keeps
  · refine List.Pairwise.sublist ?_ layout.entries_sorted
    rw [parts, List.flatMap_append, List.flatMap_cons, entries]
    apply List.Sublist.trans _ (List.sublist_append_right _ _)
    exact (List.filter_sublist.trans (List.sublist_append_right done todo)).append
      (Log.pending_sublist rest)
  · intro entry
    rw [seqAt_within layout readable member entries segment offset]
    constructor
    · exact waiting_of_left layout keeps parts entries
    · rintro ⟨appended, from', waits⟩
      exact left_of_waiting layout keeps parts entries appended from' waits

end Here

theorem ahead_gone {cursor : Cursor} (behind : ∀ kept ∈ log, cursor.segment < kept.1.firstSeq) :
    log.pending = h.ahead spool cursor := by
  apply ahead_of_members keeps
  · exact List.Pairwise.sublist (Log.pending_sublist log) layout.entries_sorted
  · intro entry
    rw [seqAt_gone layout behind]
    constructor
    · intro inAhead
      rcases List.mem_flatMap.mp inAhead with ⟨kept, member, inKept⟩
      rcases List.mem_filter.mp inKept with ⟨inEntries, wanted⟩
      have waits := waiting_of_wanted layout keeps member inEntries wanted
      have from' := seq_of_entry (layout.ordered.holds kept member) entry inEntries
      have later := behind kept member
      refine ⟨waits.1, ?_, waits.2⟩
      omega
    · rintro ⟨appended, _, waits⟩
      rcases held_of_waiting layout keeps appended waits with ⟨kept, member, inEntries, wanted⟩
      exact List.mem_flatMap.mpr ⟨kept, member, List.mem_filter.mpr ⟨inEntries, wanted⟩⟩

/-- What lies ahead of a located position is what the run expects there. -/
theorem stands_ahead (readable : ∀ kept ∈ log, ∀ entry ∈ kept.2, entry.Fits) {cursor : Cursor}
    {seq known : Nat} (located : Located log.pieces next cursor seq known) :
    Stands log cursor (h.ahead spool cursor) := by
  cases located with
  | @here done todo piece offset number enough =>
      rcases List.mem_map.mp piece with ⟨kept, member, same⟩
      have segment : cursor.segment = kept.1.firstSeq := (congrArg Prod.fst same).symm
      have entries : kept.2 = done ++ todo := congrArg Prod.snd same
      rcases List.append_of_mem member with ⟨front, rest, parts⟩
      rw [← ahead_here layout keeps parts entries readable segment offset]
      exact .within (.mk parts entries segment offset)
  | gone after passed =>
      have behind : ∀ kept ∈ log, cursor.segment < kept.1.firstSeq := by
        intro kept member
        exact (after _ (List.mem_map_of_mem member)).1
      rw [← ahead_gone layout keeps behind]
      apply Stands.gone
      intro kept member same
      have later := behind kept member
      omega

omit keeps in
theorem kept_unique {kept other : Segment × List Entry} (first : kept ∈ log) (second : other ∈ log)
    {seq : Nat} (inFirst : kept.1.contains seq = true) (inSecond : other.1.contains seq = true) :
    kept = other := by
  rcases List.append_of_mem first with ⟨front, rest, parts⟩
  have increasing := layout.ordered.increasing
  rw [parts] at increasing second
  have orders := List.pairwise_append.mp increasing
  have bounds := (kept.1.contains_iff seq).mp inFirst
  have otherBounds := (other.1.contains_iff seq).mp inSecond
  rcases List.mem_append.mp second with earlier | later
  · have before := orders.2.2 other earlier kept List.mem_cons_self
    omega
  · rcases List.mem_cons.mp later with same | behind
    · exact same.symm
    · have after := (List.pairwise_cons.mp orders.2.1).1 other behind
      omega

omit keeps in
theorem located_of_begins {cursor : Cursor} {entry : Entry} (begins : Begins log cursor entry)
    (next : Nat) : Located log.pieces next cursor entry.seq 1 := by
  cases begins with
  | @mk front rest kept done todo parts entries segment offset =>
      have member : kept ∈ log := by
        rw [parts]
        exact List.mem_append_right _ List.mem_cons_self
      have holds := layout.ordered.holds kept member
      rw [entries] at holds
      have piece : (cursor.segment, done ++ entry :: todo) ∈ log.pieces := by
        rw [segment, ← entries]
        exact List.mem_map_of_mem (f := fun kept : Segment × List Entry => (kept.1.firstSeq, kept.2))
          member
      refine .here piece offset ?_ (Nat.le_add_left 1 _)
      rw [segment]
      exact seq_of_next holds

omit keeps in
theorem begins_same {one other : Cursor} {entry : Entry} (first : Begins log one entry)
    (second : Begins log other entry) : one = other := by
  cases first with
  | @mk front rest kept done todo parts entries segment offset =>
      cases second with
      | @mk front' rest' kept' done' todo' parts' entries' segment' offset' =>
          have member : kept ∈ log := by
            rw [parts]
            exact List.mem_append_right _ List.mem_cons_self
          have member' : kept' ∈ log := by
            rw [parts']
            exact List.mem_append_right _ List.mem_cons_self
          have inKept : entry ∈ kept.2 := by
            rw [entries]
            exact List.mem_append_right _ List.mem_cons_self
          have inKept' : entry ∈ kept'.2 := by
            rw [entries']
            exact List.mem_append_right _ List.mem_cons_self
          have same := kept_unique layout member member' (layout.entry_contained member inKept)
            (layout.entry_contained member' inKept')
          subst same
          have holds := layout.ordered.holds kept member
          have number := seq_of_next (entries ▸ holds)
          have number' := seq_of_next (entries' ▸ holds)
          have length : done.length = done'.length := by omega
          have sameDone : done = done' :=
            (List.append_inj (entries.symm.trans entries') length).1
          have sameOffset : one.offset = other.offset := by
            rw [offset, offset', sameDone]
          have sameSegment : one.segment = other.segment := segment.trans segment'.symm
          cases one
          cases other
          cases sameOffset
          cases sameSegment
          rfl

/-- From the position returned with an entry that still waits, the entry is read first. -/
theorem reads_again (readable : ∀ kept ∈ log, ∀ entry ∈ kept.2, entry.Recordable)
    {found : Cursor × Entry} (located : Located log.pieces next found.1 found.2.seq 1)
    (appended : found.2 ∈ h.appended) (waits : found.2.seq ∈ spool.waiting) {limit : Nat}
    (positive : 0 < limit) :
    (spool.read h.machine.disk found.1 limit).1.head? = some found := by
  rcases held_of_waiting layout keeps appended waits with ⟨other, isHeld, inOther, wanted⟩
  have range := seq_of_entry (layout.ordered.holds other isHeld) found.2 inOther
  cases located with
  | gone after passed =>
      have later := (after _ (List.mem_map_of_mem isHeld)).2
      change found.2.seq + 1 ≤ other.1.firstSeq at later
      omega
  | @here done todo piece offset number enough =>
      rcases List.mem_map.mp piece with ⟨kept, member, same⟩
      have segment : found.1.segment = kept.1.firstSeq := (congrArg Prod.fst same).symm
      have entries : kept.2 = done ++ todo := congrArg Prod.snd same
      cases todo with
      | nil => cases enough
      | cons first rest =>
          have holds := layout.ordered.holds kept member
          rw [entries] at holds
          have inKept : first ∈ kept.2 := by
            rw [entries]
            exact List.mem_append_right _ List.mem_cons_self
          have firstAppended := keeps.held _ (List.mem_map_of_mem member) first inKept
          have sameSeq : first.seq = found.2.seq := by
            rw [number, segment]
            exact seq_of_next holds
          have isFound := keeps.same_entry firstAppended appended sameSeq
          rw [isFound] at entries inKept
          have sameKept := kept_unique layout member isHeld
            (layout.entry_contained member inKept) (layout.entry_contained isHeld inOther)
          rw [← sameKept] at wanted
          rcases List.append_of_mem member with ⟨front, behind, parts⟩
          have place : Within log found.1
              ((found.2 :: rest).filter kept.1.wants ++ Log.pending behind) :=
            .mk parts entries segment offset
          rw [List.filter_cons_of_pos wanted] at place
          rcases read_stands layout readable (.within place) limit with read | ⟨empty, _, _⟩
          · have returned := read.returned
            cases limit with
            | zero => cases positive
            | succ limit =>
                cases result : (spool.read h.machine.disk found.1 (limit + 1)).1 with
                | nil =>
                    rw [result] at returned
                    cases returned
                | cons head tail =>
                    rw [result] at returned
                    have isEntry : head.2 = found.2 := (List.cons.inj returned).1
                    have begins := read.positions head (by rw [result]; exact List.mem_cons_self)
                    rw [isEntry] at begins
                    have position := begins_same layout begins (.mk parts entries segment offset)
                    exact congrArg some (Prod.ext position isEntry)
          · rw [empty] at member
            cases member

end Ahead

end PiAgents.Spooling
