import PiAgents.Spooling.Agreement

/-! What lies ahead of a read position, and that a read returns the beginning of it and moves the
position behind what it returned. -/

namespace PiAgents.Spooling

/-- A read of the segment returns the entry. -/
def Segment.wants (s : Segment) (entry : Entry) : Bool :=
  s.contains entry.seq && !s.isAcked entry.seq

def Log.pending (log : Log) : List Entry := log.flatMap fun kept => kept.2.filter kept.1.wants

@[simp] theorem Log.pending_nil : Log.pending [] = [] := rfl

@[simp] theorem Log.pending_cons (kept : Segment × List Entry) (rest : Log) :
    Log.pending (kept :: rest) = kept.2.filter kept.1.wants ++ Log.pending rest := rfl

/-- A position in a segment of the log, and the entries that are still to be returned from there. -/
inductive Within (log : Log) (cursor : Cursor) : List Entry → Prop where
  | mk {front rest : Log} {kept : Segment × List Entry} {done todo : List Entry}
      (parts : log = front ++ kept :: rest) (entries : kept.2 = done ++ todo)
      (segment : cursor.segment = kept.1.firstSeq)
      (offset : cursor.offset = (encodeAll done).length) :
      Within log cursor (todo.filter kept.1.wants ++ rest.pending)

/-- A position in a segment that is gone stands before the oldest one. -/
inductive Stands (log : Log) (cursor : Cursor) : List Entry → Prop where
  | within {ahead : List Entry} (place : Within log cursor ahead) : Stands log cursor ahead
  | gone (absent : ∀ kept ∈ log, kept.1.firstSeq ≠ cursor.segment) :
      Stands log cursor log.pending

/-- The position of the record of an entry. -/
inductive Begins (log : Log) (cursor : Cursor) (entry : Entry) : Prop where
  | mk {front rest : Log} {kept : Segment × List Entry} {done todo : List Entry}
      (parts : log = front ++ kept :: rest) (entries : kept.2 = done ++ entry :: todo)
      (segment : cursor.segment = kept.1.firstSeq)
      (offset : cursor.offset = (encodeAll done).length)

theorem Layout.file {disk : Disk} {spool : Spool} {log : Log} (layout : Layout disk spool log)
    {kept : Segment × List Entry} (member : kept ∈ log) :
    disk.file kept.1.path = some (encodeAll kept.2) := by
  have names := layout.ordered.names
  unfold Disk.file
  rw [layout.files]
  clear layout
  induction log with
  | nil => cases member
  | cons first rest ih =>
      have apart := List.pairwise_cons.mp names
      change List.lookup kept.1.path ((first.1.path, encodeAll first.2) :: Log.files rest) = _
      rcases List.mem_cons.mp member with rfl | later
      · exact List.lookup_cons_self
      · have inFiles : (kept.1.path, encodeAll kept.2) ∈ Log.files rest :=
          List.mem_map_of_mem later
        have different : (kept.1.path == first.1.path) = false :=
          beq_eq_false_iff_ne.mpr (apart.1 _ inFiles).symm
        rw [List.lookup_cons, different]
        exact ih later apart.2

section ReadRest

variable (segment : Segment)

/-- What reading the rest of a segment returns and how far it goes. -/
structure RestRead (segment : Segment) (todo : List Entry) (limit : Nat) (cursor : Cursor)
    (read : List (Cursor × Entry) × Cursor) (passed left' : List Entry) : Prop where
  parts : todo = passed ++ left'
  returned : read.1.map Prod.snd = (todo.filter segment.wants).take limit
  ahead : left'.filter segment.wants = (todo.filter segment.wants).drop limit
  next : read.2 = ⟨cursor.segment, cursor.offset + (encodeAll passed).length⟩
  stops : left' = [] ∨ read.1.length = limit
  positions : ∀ found ∈ read.1, ∃ before after, todo = before ++ found.2 :: after ∧
    found.1 = ⟨cursor.segment, cursor.offset + (encodeAll before).length⟩

section Step

variable {segment : Segment} {entry : Entry} (record : entry.Recordable) (rest : List Entry)
  (rounds limit : Nat) (cursor : Cursor)

include record

theorem readFrame_entry : readFrame (encodeAll (entry :: rest)) =
    some (crc32 (entryBody entry), entryBody entry, encodeAll rest) :=
  readFrame_frame record.body _

theorem decodeBody_recordable : decodeBody (entryBody entry) = some entry := by
  rw [decodeBody_entryBody record.seq, stored_of_key record.key]

theorem readRest_wanted (wanted : segment.wants entry = true) :
    Spool.readRest segment (rounds + 1) (limit + 1) (encodeAll (entry :: rest)) cursor =
      let later := Spool.readRest segment rounds limit (encodeAll rest)
        ⟨cursor.segment, cursor.offset + (encodeEntry entry).length⟩
      ((cursor, entry) :: later.1, later.2) := by
  have kept : (segment.contains entry.seq && !segment.isAcked entry.seq) = true := wanted
  have length : recordHeader + (entryBody entry).length = (encodeEntry entry).length :=
    (frame_length (entryBody entry)).symm
  simp only [Spool.readRest, readFrame_entry record, decodeBody_recordable record,
    Option.filter_some, kept, if_true, length, Nat.add_one_sub_one, Nat.add_one_ne_zero, if_false]

theorem readRest_passed (unwanted : ¬ segment.wants entry = true) :
    Spool.readRest segment (rounds + 1) (limit + 1) (encodeAll (entry :: rest)) cursor =
      Spool.readRest segment rounds (limit + 1) (encodeAll rest)
        ⟨cursor.segment, cursor.offset + (encodeEntry entry).length⟩ := by
  have skipped : ¬ (segment.contains entry.seq && !segment.isAcked entry.seq) = true := unwanted
  have length : recordHeader + (entryBody entry).length = (encodeEntry entry).length :=
    (frame_length (entryBody entry)).symm
  rw [Spool.readRest]
  simp only [readFrame_entry record, decodeBody_recordable record, Option.filter_some, length,
    Nat.add_one_ne_zero, if_false]
  rw [if_neg skipped]

end Step

theorem RestRead.wanted {entry : Entry} {todo passed left' : List Entry} {limit : Nat}
    {cursor : Cursor} {read : List (Cursor × Entry) × Cursor}
    (later : RestRead segment todo limit
      ⟨cursor.segment, cursor.offset + (encodeEntry entry).length⟩ read passed left')
    (wanted : segment.wants entry = true) :
    RestRead segment (entry :: todo) (limit + 1) cursor ((cursor, entry) :: read.1, read.2)
      (entry :: passed) left' where
  parts := congrArg (entry :: ·) later.parts
  returned := by
    rw [List.map_cons, later.returned, List.filter_cons_of_pos wanted, List.take_succ_cons]
  ahead := by
    rw [later.ahead, List.filter_cons_of_pos wanted, List.drop_succ_cons]
  next := by
    rw [later.next, encodeAll_cons, List.length_append, Nat.add_assoc]
  stops := later.stops.imp_right fun full => congrArg Nat.succ full
  positions := by
    intro found member
    rcases List.mem_cons.mp member with rfl | inLater
    · exact ⟨[], todo, rfl, rfl⟩
    · rcases later.positions found inLater with ⟨before, after, parts, position⟩
      refine ⟨entry :: before, after, congrArg (entry :: ·) parts, ?_⟩
      rw [position, encodeAll_cons, List.length_append, Nat.add_assoc]

theorem RestRead.passed {entry : Entry} {todo passed left' : List Entry} {limit : Nat}
    {cursor : Cursor} {read : List (Cursor × Entry) × Cursor}
    (later : RestRead segment todo limit
      ⟨cursor.segment, cursor.offset + (encodeEntry entry).length⟩ read passed left')
    (unwanted : ¬ segment.wants entry = true) :
    RestRead segment (entry :: todo) limit cursor read (entry :: passed) left' where
  parts := congrArg (entry :: ·) later.parts
  returned := by
    rw [later.returned, List.filter_cons_of_neg unwanted]
  ahead := by
    rw [later.ahead, List.filter_cons_of_neg unwanted]
  next := by
    rw [later.next, encodeAll_cons, List.length_append, Nat.add_assoc]
  stops := later.stops
  positions := by
    intro found member
    rcases later.positions found member with ⟨before, after, parts, position⟩
    refine ⟨entry :: before, after, congrArg (entry :: ·) parts, ?_⟩
    rw [position, encodeAll_cons, List.length_append, Nat.add_assoc]

theorem readRest_encodeAll {todo : List Entry} (recordable : ∀ entry ∈ todo, entry.Recordable)
    (limit : Nat) {rounds : Nat} (enough : todo.length < rounds) (cursor : Cursor) :
    ∃ passed left', RestRead segment todo limit cursor
      (Spool.readRest segment rounds limit (encodeAll todo) cursor) passed left' := by
  induction todo generalizing limit rounds cursor with
  | nil =>
      cases rounds with
      | zero => cases enough
      | succ rounds =>
          have read : Spool.readRest segment (rounds + 1) limit (encodeAll []) cursor =
              ([], cursor) := by
            unfold Spool.readRest
            rw [encodeAll_nil, readFrame_nil]
            exact ite_self _
          rw [read]
          refine ⟨[], [], rfl, List.take_nil.symm, List.drop_nil.symm, rfl, Or.inl rfl, ?_⟩
          intro found member
          cases member
  | cons entry rest ih =>
      cases rounds with
      | zero => cases enough
      | succ rounds =>
          have record := recordable entry List.mem_cons_self
          have others : ∀ other ∈ rest, other.Recordable :=
            fun other member => recordable other (List.mem_cons_of_mem _ member)
          have fewer : rest.length < rounds := Nat.lt_of_succ_lt_succ enough
          cases limit with
          | zero =>
              have read : Spool.readRest segment (rounds + 1) 0 (encodeAll (entry :: rest)) cursor =
                  ([], cursor) := rfl
              rw [read]
              refine ⟨[], entry :: rest, rfl, rfl, rfl, rfl, Or.inr rfl, ?_⟩
              intro found member
              cases member
          | succ limit =>
              by_cases wanted : segment.wants entry = true
              · rcases ih others limit fewer
                  ⟨cursor.segment, cursor.offset + (encodeEntry entry).length⟩ with
                  ⟨passed, left', read⟩
                rw [readRest_wanted record rest rounds limit cursor wanted]
                exact ⟨entry :: passed, left', read.wanted segment wanted⟩
              · rcases ih others (limit + 1) fewer
                  ⟨cursor.segment, cursor.offset + (encodeEntry entry).length⟩ with
                  ⟨passed, left', read⟩
                rw [readRest_passed record rest rounds limit cursor wanted]
                exact ⟨entry :: passed, left', read.passed segment wanted⟩

end ReadRest

/-- What a read returns of the entries ahead, and where it leaves the position. -/
structure LogRead (log : Log) (ahead : List Entry) (limit : Nat)
    (read : List (Cursor × Entry) × Cursor) : Prop where
  returned : read.1.map Prod.snd = ahead.take limit
  next : Within log read.2 (ahead.drop limit)
  positions : ∀ found ∈ read.1, Begins log found.1 found.2

section Segments

variable {log front rest : Log} {kept : Segment × List Entry} {done todo : List Entry}
  {limit : Nat} {cursor : Cursor} {read : List (Cursor × Entry) × Cursor}
  {passed left' : List Entry}

theorem RestRead.stands (rested : RestRead kept.1 todo limit cursor read passed left')
    (parts : log = front ++ kept :: rest) (entries : kept.2 = done ++ todo)
    (segment : cursor.segment = kept.1.firstSeq)
    (offset : cursor.offset = (encodeAll done).length) :
    Within log read.2 (left'.filter kept.1.wants ++ rest.pending) := by
  have split : kept.2 = (done ++ passed) ++ left' := by
    rw [entries, rested.parts, List.append_assoc]
  apply Within.mk parts split
  · rw [rested.next]
    exact segment
  · rw [rested.next, encodeAll_append, List.length_append, offset]

theorem RestRead.found (rested : RestRead kept.1 todo limit cursor read passed left')
    (parts : log = front ++ kept :: rest) (entries : kept.2 = done ++ todo)
    (segment : cursor.segment = kept.1.firstSeq)
    (offset : cursor.offset = (encodeAll done).length) :
    ∀ found ∈ read.1, Begins log found.1 found.2 := by
  intro found member
  rcases rested.positions found member with ⟨before, after, split, position⟩
  have whole : kept.2 = (done ++ before) ++ found.2 :: after := by
    rw [entries, split, List.append_assoc]
  apply Begins.mk parts whole
  · rw [position]
    exact segment
  · rw [position, encodeAll_append, List.length_append, offset]

theorem RestRead.ends (rested : RestRead kept.1 todo limit cursor read passed left')
    (parts : log = front ++ kept :: rest) (entries : kept.2 = done ++ todo)
    (segment : cursor.segment = kept.1.firstSeq)
    (offset : cursor.offset = (encodeAll done).length)
    (last : read.1.length = limit ∨ rest = []) :
    LogRead log (todo.filter kept.1.wants ++ rest.pending) limit read := by
  have stands := rested.stands parts entries segment offset
  refine ⟨?_, ?_, rested.found parts entries segment offset⟩
  · rcases last with full | nothing
    · have enough : limit ≤ (todo.filter kept.1.wants).length := by
        have lengths := congrArg List.length rested.returned
        rw [List.length_map, full, List.length_take] at lengths
        omega
      rw [rested.returned, List.take_append_of_le_length enough]
    · rw [rested.returned, nothing, Log.pending_nil, List.append_nil]
  · rcases last with full | nothing
    · have enough : limit ≤ (todo.filter kept.1.wants).length := by
        have lengths := congrArg List.length rested.returned
        rw [List.length_map, full, List.length_take] at lengths
        omega
      rw [List.drop_append_of_le_length enough, ← rested.ahead]
      exact stands
    · rw [nothing, Log.pending_nil, List.append_nil] at stands ⊢
      rw [← rested.ahead]
      exact stands

theorem RestRead.continues (rested : RestRead kept.1 todo limit cursor read passed [])
    (parts : log = front ++ kept :: rest) (entries : kept.2 = done ++ todo)
    (segment : cursor.segment = kept.1.firstSeq)
    (offset : cursor.offset = (encodeAll done).length)
    {later : List (Cursor × Entry) × Cursor}
    (goes : LogRead log rest.pending (limit - read.1.length) later) :
    LogRead log (todo.filter kept.1.wants ++ rest.pending) limit
      (read.1 ++ later.1, later.2) := by
  have all : (todo.filter kept.1.wants).length ≤ limit := by
    have nothing := congrArg List.length rested.ahead
    rw [List.filter_nil, List.length_nil, List.length_drop] at nothing
    omega
  have length : read.1.length = (todo.filter kept.1.wants).length := by
    have lengths := congrArg List.length rested.returned
    rw [List.length_map, List.length_take] at lengths
    omega
  refine ⟨?_, ?_, ?_⟩
  · rw [List.map_append, rested.returned, goes.returned, length, List.take_append]
  · have next := goes.next
    rw [length] at next
    rw [List.drop_append, List.drop_eq_nil_of_le all, List.nil_append]
    exact next
  · intro found member
    rcases List.mem_append.mp member with here | after
    · exact rested.found parts entries segment offset found here
    · exact goes.positions found after

end Segments

private theorem encodeAll_pos {entries : List Entry} (nonempty : entries ≠ []) :
    0 < (encodeAll entries).length := by
  cases entries with
  | nil => exact absurd rfl nonempty
  | cons entry rest =>
      rw [encodeAll_cons, List.length_append]
      exact Nat.add_pos_left (encodeEntry_pos entry) _

/-- The part of a read that one segment's file gives. -/
def readHere (disk : Disk) (segment : Segment) (limit : Nat) (cursor : Cursor) :
    List (Cursor × Entry) × Cursor :=
  let bytes := ((disk.file segment.path).getD []).drop cursor.offset
  Spool.readRest segment (bytes.length + 1) limit bytes cursor

theorem readSegments_last (disk : Disk) (segment : Segment) {limit : Nat} (some' : limit ≠ 0)
    (cursor : Cursor) :
    Spool.readSegments disk limit [segment] cursor = readHere disk segment limit cursor := by
  rw [Spool.readSegments, if_neg some']
  rfl

theorem readSegments_next (disk : Disk) (segment next : Segment) (rest : List Segment)
    {limit : Nat} (some' : limit ≠ 0) (cursor : Cursor) :
    Spool.readSegments disk limit (segment :: next :: rest) cursor =
      if (readHere disk segment limit cursor).2.offset < segment.bytes then
        readHere disk segment limit cursor
      else
        let later := Spool.readSegments disk
          (limit - (readHere disk segment limit cursor).1.length) (next :: rest) ⟨next.firstSeq, 0⟩
        ((readHere disk segment limit cursor).1 ++ later.1, later.2) := by
  rw [Spool.readSegments, if_neg some']
  rfl

theorem readSegments_zero (disk : Disk) (segments : List Segment) (cursor : Cursor) :
    Spool.readSegments disk 0 segments cursor = ([], cursor) := by
  cases segments with
  | nil => rfl
  | cons segment rest => rw [Spool.readSegments, if_pos rfl]

section Within

variable {disk : Disk} {spool : Spool} {log : Log} (layout : Layout disk spool log)
  (recordable : ∀ kept ∈ log, ∀ entry ∈ kept.2, entry.Recordable)

include layout recordable

theorem rested_readHere {front rest : Log} {kept : Segment × List Entry} {done todo : List Entry}
    (limit : Nat) {cursor : Cursor} (parts : log = front ++ kept :: rest)
    (entries : kept.2 = done ++ todo) (offset : cursor.offset = (encodeAll done).length) :
    ∃ passed left',
      RestRead kept.1 todo limit cursor (readHere disk kept.1 limit cursor) passed left' ∧
      (left' = [] ↔ ¬ (readHere disk kept.1 limit cursor).2.offset < kept.1.bytes) := by
  have member : kept ∈ log := by
    rw [parts]
    exact List.mem_append_right _ List.mem_cons_self
  have holds := layout.ordered.holds kept member
  have isTodo : ((disk.file kept.1.path).getD []).drop cursor.offset = encodeAll todo := by
    rw [layout.file member, Option.getD_some, entries, encodeAll_append, offset, List.drop_left]
  have others : ∀ entry ∈ todo, entry.Recordable := by
    intro entry inTodo
    apply recordable kept member
    rw [entries]
    exact List.mem_append_right _ inTodo
  have here : readHere disk kept.1 limit cursor =
      Spool.readRest kept.1 ((encodeAll todo).length + 1) limit (encodeAll todo) cursor := by
    rw [readHere, isTodo]
  rcases readRest_encodeAll kept.1 others limit (Nat.lt_succ_of_le (encodeAll_covers todo)) cursor
    with ⟨passed, left', rested⟩
  rw [here]
  refine ⟨passed, left', rested, ?_⟩
  have total : kept.1.bytes = cursor.offset + (encodeAll passed).length +
      (encodeAll left').length := by
    rw [holds.bytes, entries, rested.parts, encodeAll_append, encodeAll_append, List.length_append,
      List.length_append, offset, Nat.add_assoc]
  rw [rested.next, total]
  change left' = [] ↔ ¬ cursor.offset + (encodeAll passed).length < _
  constructor
  · intro nothing
    rw [nothing, encodeAll_nil, List.length_nil, Nat.add_zero]
    exact Nat.lt_irrefl _
  · intro reached
    by_contra some'
    have positive := encodeAll_pos some'
    omega

theorem readSegments_within {rest : Log} (front : Log) {kept : Segment × List Entry}
    {done todo : List Entry} (limit : Nat) {cursor : Cursor} (parts : log = front ++ kept :: rest)
    (entries : kept.2 = done ++ todo) (segment : cursor.segment = kept.1.firstSeq)
    (offset : cursor.offset = (encodeAll done).length) :
    LogRead log (todo.filter kept.1.wants ++ rest.pending) limit
      (Spool.readSegments disk limit (Log.segments (kept :: rest)) cursor) := by
  induction rest generalizing front kept done todo limit cursor with
  | nil =>
      by_cases nothing : limit = 0
      · rw [nothing, readSegments_zero]
        refine ⟨rfl, .mk parts entries segment offset, ?_⟩
        intro found member
        cases member
      · change LogRead log _ limit (Spool.readSegments disk limit [kept.1] cursor)
        rw [readSegments_last disk kept.1 nothing]
        rcases rested_readHere layout recordable limit parts entries offset with
          ⟨passed, left', rested, _⟩
        exact rested.ends parts entries segment offset (Or.inr rfl)
  | cons next rest ih =>
      by_cases nothing : limit = 0
      · rw [nothing, readSegments_zero]
        refine ⟨rfl, .mk parts entries segment offset, ?_⟩
        intro found member
        cases member
      · change LogRead log _ limit
          (Spool.readSegments disk limit (kept.1 :: next.1 :: Log.segments rest) cursor)
        rw [readSegments_next disk kept.1 next.1 _ nothing]
        rcases rested_readHere layout recordable limit parts entries offset with
          ⟨passed, left', rested, reached⟩
        by_cases short : (readHere disk kept.1 limit cursor).2.offset < kept.1.bytes
        · rw [if_pos short]
          have some' : left' ≠ [] := fun empty => reached.mp empty short
          exact rested.ends parts entries segment offset
            (Or.inl (rested.stops.resolve_left some'))
        · rw [if_neg short]
          have empty := reached.mpr short
          subst empty
          have following : log = (front ++ [kept]) ++ next :: rest := by
            rw [parts, List.append_assoc, List.singleton_append]
          have later : LogRead log (Log.pending (next :: rest))
              (limit - (readHere disk kept.1 limit cursor).1.length)
              (Spool.readSegments disk (limit - (readHere disk kept.1 limit cursor).1.length)
                (Log.segments (next :: rest)) ⟨next.1.firstSeq, 0⟩) :=
            ih (front ++ [kept]) _ following (List.nil_append _).symm rfl rfl
          exact rested.continues parts entries segment offset later

omit recordable in
theorem segments_from {front rest : Log} {kept : Segment × List Entry}
    (parts : log = front ++ kept :: rest) :
    spool.segments.dropWhile (·.firstSeq != kept.1.firstSeq) = Log.segments (kept :: rest) := by
  have ordered := layout.ordered
  have whole : spool.segments = Log.segments front ++ kept.1 :: Log.segments rest := by
    rw [layout.segments, parts]
    exact List.map_append
  have passed : ∀ s ∈ Log.segments front, (s.firstSeq != kept.1.firstSeq) = true := by
    intro s member
    rcases List.mem_map.mp member with ⟨earlier, inFront, rfl⟩
    have increasing := ordered.increasing
    rw [parts] at increasing
    have after := (List.pairwise_append.mp increasing).2.2 earlier inFront kept List.mem_cons_self
    have inLog : earlier ∈ log := by
      rw [parts]
      exact List.mem_append_left _ inFront
    have filled := ordered.nonempty earlier inLog
    apply bne_iff_ne.mpr
    omega
  rw [whole, List.dropWhile_append_of_pos passed, List.dropWhile_cons]
  simp only [bne_self_eq_false, Bool.false_eq_true, if_false]
  rfl

/-- A read returns the beginning of what is ahead and leaves the rest ahead. Without segments the
position goes to the start. -/
theorem read_stands {cursor : Cursor} {ahead : List Entry} (stands : Stands log cursor ahead)
    (limit : Nat) : LogRead log ahead limit (spool.read disk cursor limit) ∨
      log = [] ∧ ahead = [] ∧ spool.read disk cursor limit = ([], ⟨0, 0⟩) := by
  unfold Spool.read
  cases stands with
  | within place =>
      cases place with
      | @mk front rest kept done todo parts entries segment offset =>
          have known : spool.segments.any (·.firstSeq == cursor.segment) = true := by
            rw [layout.segments]
            refine List.any_eq_true.mpr ⟨kept.1, ?_, beq_iff_eq.mpr segment.symm⟩
            rw [parts]
            exact List.mem_map_of_mem (List.mem_append_right _ List.mem_cons_self)
          have onwards := segments_from layout parts
          rw [← segment] at onwards
          rw [if_pos known, onwards]
          exact Or.inl (readSegments_within layout recordable front limit parts entries segment offset)
  | gone absent =>
      have unknown : ¬ spool.segments.any (·.firstSeq == cursor.segment) = true := by
        rw [layout.segments]
        intro found
        rcases List.any_eq_true.mp found with ⟨s, member, same⟩
        rcases List.mem_map.mp member with ⟨kept, inLog, rfl⟩
        exact absent kept inLog (beq_iff_eq.mp same)
      rw [if_neg unknown, layout.segments]
      cases log with
      | nil => exact Or.inr ⟨rfl, rfl, rfl⟩
      | cons kept rest =>
          left
          exact readSegments_within layout recordable [] limit rfl (List.nil_append _).symm rfl rfl

end Within

end PiAgents.Spooling
