import PiAgents.Spooling.ReadRuns

/-! What is read from a position, in numbers: the ones that wait at or behind the position's own, and
never one that is acknowledged or gone. -/

namespace PiAgents.Spooling

theorem toLeBytes_two_mod (n : Nat) : toLeBytes 2 (n % 65536) = toLeBytes 2 n := by
  have low : UInt8.ofNat (n % 65536) = UInt8.ofNat n := by
    apply UInt8.toNat.inj
    rw [UInt8.toNat_ofNat', UInt8.toNat_ofNat']
    omega
  have high : UInt8.ofNat (n % 65536 / 256) = UInt8.ofNat (n / 256) := by
    apply UInt8.toNat.inj
    rw [UInt8.toNat_ofNat', UInt8.toNat_ofNat']
    omega
  simp only [toLeBytes, low, high]

theorem stored_key_length (entry : Entry) :
    (stored entry).key.length = entry.key.length % 65536 := by
  have within : entry.key.length % 65536 ≤ (entry.key ++ entry.payload).length := by
    rw [List.length_append]
    exact Nat.le_add_right_of_le (Nat.mod_le _ _)
  exact List.length_take_of_le within

theorem entryBody_stored (entry : Entry) : entryBody (stored entry) = entryBody entry := by
  have parts : (stored entry).key ++ (stored entry).payload = entry.key ++ entry.payload :=
    List.take_append_drop _ _
  rw [entryBody, entryBody, stored_key_length, toLeBytes_two_mod, List.append_assoc _ _ entry.payload,
    List.append_assoc _ _ (stored entry).payload, parts]
  rfl

theorem encodeAll_stored (entries : List Entry) :
    encodeAll (entries.map stored) = encodeAll entries := by
  induction entries with
  | nil => rfl
  | cons entry rest ih =>
      rw [List.map_cons, encodeAll_cons, encodeAll_cons, ih, encodeEntry, encodeEntry,
        entryBody_stored]

/-- The log with its entries as they are read. -/
def Log.asRead (log : Log) : Log := log.map fun kept => (kept.1, kept.2.map stored)

namespace Log

variable {log : Log} {next : Nat}

theorem asRead_segments : log.asRead.segments = log.segments := by
  rw [segments, segments, asRead, List.map_map]
  rfl

theorem asRead_files : log.asRead.files = log.files := by
  rw [files, files, asRead, List.map_map]
  apply List.map_congr_left
  intro kept _
  change (kept.1.path, encodeAll (kept.2.map stored)) = (kept.1.path, encodeAll kept.2)
  rw [encodeAll_stored]

theorem asRead_recordable (readable : ∀ kept ∈ log, ∀ entry ∈ kept.2, entry.Fits) :
    ∀ kept ∈ log.asRead, ∀ entry ∈ kept.2, entry.Recordable := by
  intro kept member entry inEntries
  rcases List.mem_map.mp member with ⟨before, inLog, rfl⟩
  rcases List.mem_map.mp inEntries with ⟨appended, held, rfl⟩
  have fits := readable before inLog appended held
  refine ⟨⟨fits.seq, ?_⟩, ?_⟩
  · rw [entryBody_stored]
    exact fits.body
  · rw [stored_key_length]
    exact Nat.mod_lt _ (by decide)

end Log

theorem Holds.asRead {segment : Segment} {entries : List Entry} (holds : Holds segment entries) :
    Holds segment (entries.map stored) where
  path := holds.path
  numbered := by
    rw [← holds.numbered, List.map_map]
    rfl
  sound := holds.sound
  bytes := by
    rw [encodeAll_stored, holds.bytes]
  times := by
    intro entry member
    rcases List.mem_map.mp member with ⟨before, held, rfl⟩
    exact holds.times before held

theorem Agrees.asRead {disk : Disk} {spool : Spool} {log : Log} (agrees : Agrees disk spool log) :
    Agrees disk spool log.asRead := by
  have layout : Layout disk spool log.asRead := by
    constructor
    · constructor
      · intro kept member
        rcases List.mem_map.mp member with ⟨before, inLog, rfl⟩
        exact (agrees.ordered.holds before inLog).asRead
      · intro kept member
        rcases List.mem_map.mp member with ⟨before, inLog, rfl⟩
        exact agrees.ordered.nonempty before inLog
      · exact List.pairwise_map.mpr agrees.ordered.increasing
      · intro kept member
        rcases List.mem_map.mp member with ⟨before, inLog, rfl⟩
        exact agrees.ordered.below before inLog
    · rw [Log.asRead_segments, agrees.segments]
    · rw [Log.asRead_files, agrees.files]
    · intro name opened
      rcases agrees.writer name opened with ⟨kept, last, path, ends⟩
      refine ⟨(kept.1, kept.2.map stored), ?_, path, ends⟩
      rw [Log.asRead, List.getLast?_map, last]
      rfl
    · exact agrees.total
    · exact agrees.reserved
    · exact agrees.fits
  exact ⟨layout, fun kept member entry inEntries =>
    (Log.asRead_recordable agrees.readable kept member entry inEntries).toFits, agrees.inFile,
    agrees.config⟩

theorem Located.asRead {log : Log} {next : Nat} {cursor : Cursor} {seq known : Nat}
    (located : Located log.pieces next cursor seq known) :
    Located log.asRead.pieces next cursor seq known := by
  have pieces : log.asRead.pieces = log.pieces.map fun piece => (piece.1, piece.2.map stored) := by
    rw [Log.pieces, Log.pieces, Log.asRead, List.map_map, List.map_map]
    rfl
  rw [pieces]
  cases located with
  | @here done todo piece offset number enough =>
      have read : (cursor.segment, done.map stored ++ todo.map stored) ∈
          log.pieces.map fun piece => (piece.1, piece.2.map stored) := by
        rw [← List.map_append]
        exact List.mem_map_of_mem (f := fun piece : Piece => (piece.1, piece.2.map stored)) piece
      refine .here read ?_ ?_ ?_
      · rw [encodeAll_stored, offset]
      · rw [List.length_map, number]
      · rw [List.length_map]
        exact enough
  | gone after passed =>
      refine .gone ?_ passed
      intro piece member
      rcases List.mem_map.mp member with ⟨before, held, rfl⟩
      exact after before held

/-! A read filters what it finds by the segments in memory, whatever the files hold. -/

theorem readRest_wants (segment : Segment) (rounds limit : Nat) (bytes : List UInt8)
    (cursor : Cursor) :
    ∀ found ∈ (Spool.readRest segment rounds limit bytes cursor).1, segment.wants found.2 = true := by
  induction rounds generalizing limit bytes cursor with
  | zero =>
      intro found member
      cases member
  | succ rounds ih =>
      intro found member
      rw [Spool.readRest] at member
      split at member
      · cases member
      · cases frame : readFrame bytes with
        | none =>
            simp only [frame] at member
            cases member
        | some frame' =>
            simp only [frame] at member
            split at member
            · next entry kept =>
                rcases List.mem_cons.mp member with rfl | later
                · exact (Option.filter_eq_some_iff.mp kept).2
                · exact ih _ _ _ found later
            · exact ih _ _ _ found member

theorem readSegments_wants (disk : Disk) (limit : Nat) (segments : List Segment) (cursor : Cursor) :
    ∀ found ∈ (Spool.readSegments disk limit segments cursor).1,
      ∃ segment ∈ segments, segment.wants found.2 = true := by
  induction segments generalizing limit cursor with
  | nil =>
      intro found member
      rw [Spool.readSegments] at member
      cases member
  | cons segment rest ih =>
      by_cases nothing : limit = 0
      · intro found member
        rw [nothing, readSegments_zero] at member
        cases member
      · have here : ∀ found ∈ (readHere disk segment limit cursor).1,
            ∃ other ∈ segment :: rest, other.wants found.2 = true := by
          intro found member
          exact ⟨segment, List.mem_cons_self, readRest_wants segment _ _ _ _ found member⟩
        cases rest with
        | nil =>
            rw [readSegments_last disk segment nothing]
            exact here
        | cons next rest =>
            rw [readSegments_next disk segment next rest nothing]
            split
            · exact here
            · intro found member
              rcases List.mem_append.mp member with first | later
              · exact here found first
              · rcases ih _ _ found later with ⟨other, held, wants⟩
                exact ⟨other, List.mem_cons_of_mem _ held, wants⟩

theorem read_waiting (spool : Spool) (disk : Disk) (cursor : Cursor) (limit : Nat) :
    ∀ found ∈ (spool.read disk cursor limit).1, found.2.seq ∈ spool.waiting := by
  have waits : ∀ entry : Entry, (∃ segment ∈ spool.segments, segment.wants entry = true) →
      entry.seq ∈ spool.waiting := by
    rintro entry ⟨segment, member, wants⟩
    rw [Segment.wants, Bool.and_eq_true, Bool.not_eq_true'] at wants
    exact List.mem_flatMap.mpr ⟨segment, member, (segment.mem_unackedSeqs entry.seq).mpr wants⟩
  intro found member
  apply waits
  unfold Spool.read at member
  split at member
  · rcases readSegments_wants _ _ _ _ found member with ⟨segment, held, wants⟩
    exact ⟨segment, (List.dropWhile_sublist _).subset held, wants⟩
  · exact readSegments_wants _ _ _ _ found member

/-! Which numbers are read from a position. -/

theorem Holds.wanted_seqs {segment : Segment} {entries : List Entry}
    (holds : Holds segment entries) :
    (entries.filter segment.wants).map (·.seq) = segment.unackedSeqs := by
  have wants : ∀ seq ∈ segment.seqs, (segment.contains seq && !segment.isAcked seq) =
      !segment.isAcked seq := by
    intro seq member
    rw [(segment.mem_seqs seq).mp member, Bool.true_and]
  calc
    (entries.filter segment.wants).map (·.seq)
      = (entries.map (·.seq)).filter
          fun seq => segment.contains seq && !segment.isAcked seq := by
        rw [List.filter_map]
        rfl
    _ = segment.seqs.filter fun seq => !segment.isAcked seq := by
        rw [holds.numbered, List.filter_congr wants]

theorem Log.Ordered.pending_seqs {log : Log} {next : Nat} (ordered : log.Ordered next) :
    log.pending.map (·.seq) = log.unackedSeqs := by
  induction log with
  | nil => rfl
  | cons kept rest ih =>
      rw [Log.pending_cons, List.map_append, ih ordered.tail,
        (ordered.holds kept List.mem_cons_self).wanted_seqs]
      rfl

theorem waiting_of_segments {spool : Spool} {log : Log} (segments : spool.segments = log.segments) :
    spool.waiting = log.unackedSeqs := by
  rw [Spool.waiting, segments, Log.segments, List.flatMap_map]
  rfl

theorem Layout.waiting {disk : Disk} {spool : Spool} {log : Log}
    (layout : Layout disk spool log) : spool.waiting = log.unackedSeqs :=
  waiting_of_segments layout.segments

/-- The numbers that wait at or behind this one. -/
def Spool.waitingFrom (spool : Spool) (seq : Nat) : List Nat := spool.waiting.filter (seq ≤ ·)

theorem Begins.inLog {log : Log} {cursor : Cursor} {entry : Entry}
    (begins : Begins log cursor entry) : ∃ kept ∈ log, entry ∈ kept.2 := by
  cases begins with
  | @mk front rest kept done todo parts entries segment offset =>
      refine ⟨kept, ?_, ?_⟩
      · rw [parts]
        exact List.mem_append_right _ List.mem_cons_self
      · rw [entries]
        exact List.mem_append_right _ List.mem_cons_self

section Located

variable {disk : Disk} {spool : Spool} {log : Log} (layout : Layout disk spool log)

include layout

theorem within_seqs {front rest : Log} {kept : Segment × List Entry} {done todo : List Entry}
    (parts : log = front ++ kept :: rest) (entries : kept.2 = done ++ todo) :
    (todo.filter kept.1.wants ++ rest.pending).map (·.seq) =
      spool.waitingFrom (kept.1.firstSeq + done.length) := by
  have ordered := layout.ordered
  rw [parts] at ordered
  have member : kept ∈ front ++ kept :: rest := List.mem_append_right _ List.mem_cons_self
  have holds := ordered.holds kept member
  have numbers := seq_of_done (entries ▸ holds)
  have orders := List.pairwise_append.mp ordered.increasing
  have count := holds.count
  rw [entries, List.length_append] at count
  have before : ∀ seq ∈ front.unackedSeqs, ¬ kept.1.firstSeq + done.length ≤ seq := by
    intro seq inFront
    rcases (front.mem_unackedSeqs seq).mp inFront with ⟨other, earlier, unacked⟩
    have bounds := (other.1.contains_iff seq).mp ((other.1.mem_unackedSeqs seq).mp unacked).1
    have after := orders.2.2 other earlier kept List.mem_cons_self
    omega
  have passed : ∀ entry ∈ done.filter kept.1.wants,
      ¬ kept.1.firstSeq + done.length ≤ entry.seq := by
    intro entry inDone
    have below := numbers.1 entry (List.mem_of_mem_filter inDone)
    omega
  have here : ∀ entry ∈ todo.filter kept.1.wants, kept.1.firstSeq + done.length ≤ entry.seq :=
    fun entry inTodo => (numbers.2 entry (List.mem_of_mem_filter inTodo)).1
  have behind : ∀ seq ∈ rest.unackedSeqs, kept.1.firstSeq + done.length ≤ seq := by
    intro seq inRest
    rcases (rest.mem_unackedSeqs seq).mp inRest with ⟨other, later, unacked⟩
    have bounds := (other.1.contains_iff seq).mp ((other.1.mem_unackedSeqs seq).mp unacked).1
    have after := (List.pairwise_cons.mp orders.2.1).1 other later
    omega
  have noFront : front.unackedSeqs.filter (kept.1.firstSeq + done.length ≤ ·) = [] := by
    apply List.filter_eq_nil_iff.mpr
    intro seq inFront
    exact mt of_decide_eq_true (before seq inFront)
  have own : kept.1.unackedSeqs.filter (kept.1.firstSeq + done.length ≤ ·) =
      (todo.filter kept.1.wants).map (·.seq) := by
    rw [← holds.wanted_seqs, entries, List.filter_append, List.map_append, List.filter_append]
    have none' : ((done.filter kept.1.wants).map (·.seq)).filter
        (kept.1.firstSeq + done.length ≤ ·) = [] := by
      apply List.filter_eq_nil_iff.mpr
      intro seq inDone
      rcases List.mem_map.mp inDone with ⟨entry, held, rfl⟩
      exact mt of_decide_eq_true (passed entry held)
    rw [none', List.nil_append]
    apply List.filter_eq_self.mpr
    intro seq inTodo
    rcases List.mem_map.mp inTodo with ⟨entry, held, rfl⟩
    exact decide_eq_true (here entry held)
  have all : rest.unackedSeqs.filter (kept.1.firstSeq + done.length ≤ ·) = rest.unackedSeqs := by
    apply List.filter_eq_self.mpr
    intro seq inRest
    exact decide_eq_true (behind seq inRest)
  have whole : spool.waiting = front.unackedSeqs ++ (kept.1.unackedSeqs ++ rest.unackedSeqs) := by
    rw [layout.waiting, parts, Log.unackedSeqs_append]
    rfl
  rw [Spool.waitingFrom, whole, List.filter_append, List.filter_append, noFront, own, all,
    List.nil_append, List.map_append, ordered.suffix.tail.pending_seqs]

theorem Layout.within_located {cursor : Cursor} {ahead : List Entry}
    (place : Within log cursor ahead) :
    ∃ seq, Located log.pieces spool.nextSeq cursor seq 0 ∧
      ahead.map (·.seq) = spool.waitingFrom seq := by
  cases place with
  | @mk front rest kept done todo parts entries segment offset =>
      have member : kept ∈ log := by
        rw [parts]
        exact List.mem_append_right _ List.mem_cons_self
      have piece : (cursor.segment, done ++ todo) ∈ log.pieces := by
        rw [segment, ← entries]
        exact List.mem_map_of_mem (f := fun kept : Segment × List Entry => (kept.1.firstSeq, kept.2))
          member
      refine ⟨_, .here piece offset rfl (Nat.zero_le _), ?_⟩
      rw [segment]
      exact within_seqs layout parts entries

theorem located_stands {next : Nat} {cursor : Cursor} {seq known : Nat}
    (located : Located log.pieces next cursor seq known) :
    ∃ ahead, Stands log cursor ahead ∧ ahead.map (·.seq) = spool.waitingFrom seq := by
  cases located with
  | @here done todo piece offset number enough =>
      rcases List.mem_map.mp piece with ⟨kept, member, same⟩
      have segment : cursor.segment = kept.1.firstSeq := (congrArg Prod.fst same).symm
      have entries : kept.2 = done ++ todo := congrArg Prod.snd same
      rcases List.append_of_mem member with ⟨front, rest, parts⟩
      refine ⟨_, .within (.mk parts entries segment offset), ?_⟩
      rw [number, segment, within_seqs layout parts entries]
  | gone after passed =>
      refine ⟨_, .gone ?_, ?_⟩
      · intro kept member same
        have later := (after _ (List.mem_map_of_mem member)).1
        change cursor.segment < kept.1.firstSeq at later
        omega
      · rw [layout.ordered.pending_seqs, Spool.waitingFrom, layout.waiting]
        symm
        apply List.filter_eq_self.mpr
        intro number member
        rcases (log.mem_unackedSeqs number).mp member with ⟨kept, inLog, unacked⟩
        have bounds := (kept.1.contains_iff number).mp
          ((kept.1.mem_unackedSeqs number).mp unacked).1
        have later := (after _ (List.mem_map_of_mem inLog)).2
        change seq + known ≤ kept.1.firstSeq at later
        apply decide_eq_true
        omega

/-- Where a read leaves the position and which numbers it returns. -/
structure SeqRead (spool : Spool) (log : Log) (seq limit : Nat)
    (read : List (Cursor × Entry) × Cursor) : Prop where
  returned : read.1.map (·.2.seq) = (spool.waitingFrom seq).take limit
  next : ∃ after, Located log.pieces spool.nextSeq read.2 after 0 ∧
    spool.waitingFrom after = (spool.waitingFrom seq).drop limit
  positions : ∀ found ∈ read.1, Located log.pieces spool.nextSeq found.1 found.2.seq 0
  entries : ∀ found ∈ read.1, ∃ kept ∈ log, found.2 ∈ kept.2

theorem read_seqs (recordable : ∀ kept ∈ log, ∀ entry ∈ kept.2, entry.Recordable)
    {next : Nat} {cursor : Cursor} {seq known : Nat}
    (located : Located log.pieces next cursor seq known) (limit : Nat) :
    SeqRead spool log seq limit (spool.read disk cursor limit) := by
  rcases located_stands layout located with ⟨ahead, stands, numbers⟩
  rcases read_stands layout recordable stands limit with read | ⟨empty, nothing, read⟩
  · constructor
    · rw [← numbers, ← List.map_take, ← read.returned, List.map_map]
      rfl
    · rcases layout.within_located read.next with ⟨after, place, left'⟩
      rw [← numbers, ← List.map_drop]
      exact ⟨after, place, left'.symm⟩
    · intro found member
      have begins := read.positions found member
      exact (located_of_begins (h := ⟨⟨disk, some spool⟩, [], [], []⟩) layout begins _).forget
    · intro found member
      exact (read.positions found member).inLog
  · have none' : spool.waiting = [] := by
      rw [layout.waiting, empty]
      rfl
    have start : spool.waitingFrom seq = [] := by
      rw [Spool.waitingFrom, none']
      rfl
    rw [read]
    refine ⟨?_, ⟨0, ?_, ?_⟩, ?_, ?_⟩
    · rw [start, List.take_nil]
      rfl
    · rw [empty]
      exact located_origin spool.nextSeq
    · rw [start, Spool.waitingFrom, none', List.drop_nil]
      rfl
    · intro found member
      cases member
    · intro found member
      cases member

theorem rewind_located : ∃ seq, Located log.pieces spool.nextSeq spool.rewind seq 0 ∧
    spool.waitingFrom seq = spool.waiting := by
  have ordered := layout.ordered
  unfold Spool.rewind
  cases found : spool.segments.find? fun s => decide (0 < s.unacked) with
  | some s =>
      rcases List.find?_eq_some_iff_append.mp found with ⟨_, before, after, parts, passed⟩
      rw [layout.segments] at parts
      rcases List.map_eq_append_iff.mp parts with ⟨front, back, rfl, isBefore, isBack⟩
      rcases List.map_eq_cons_iff.mp isBack with ⟨kept, rest, rfl, isKept, _⟩
      have quiet : ∀ other ∈ front, other.1.unacked = 0 := by
        intro other member
        have inBefore : other.1 ∈ before := by
          rw [← isBefore]
          exact List.mem_map_of_mem member
        have none' := passed other.1 inBefore
        rw [Bool.not_eq_true', decide_eq_false_iff_not] at none'
        omega
      have place : Within (front ++ kept :: rest) ⟨kept.1.firstSeq, 0⟩
          (kept.2.filter kept.1.wants ++ Log.pending rest) :=
        .mk rfl (List.nil_append _).symm rfl rfl
      rcases layout.within_located place with ⟨seq, located, numbers⟩
      refine ⟨seq, ?_, ?_⟩
      · rw [← isKept]
        exact located
      · have holds := ordered.holds kept (List.mem_append_right _ List.mem_cons_self)
        rw [← numbers, List.map_append, holds.wanted_seqs, ordered.suffix.tail.pending_seqs,
          layout.waiting, Log.unackedSeqs_append, ordered.front.unackedSeqs_of_acked quiet]
        rfl
  | none =>
      have quiet : ∀ kept ∈ log, kept.1.unacked = 0 := by
        intro kept member
        have inSegments : kept.1 ∈ spool.segments := by
          rw [layout.segments]
          exact List.mem_map_of_mem member
        have none' := List.find?_eq_none.mp found kept.1 inSegments
        rw [decide_eq_true_eq] at none'
        omega
      have nothing : spool.waiting = [] := by
        rw [layout.waiting, ordered.unackedSeqs_of_acked quiet]
      have empty : ∀ seq, spool.waitingFrom seq = spool.waiting := by
        intro seq
        rw [Spool.waitingFrom, nothing]
        rfl
      rw [Option.none_or, layout.segments]
      cases last : log.segments.getLast? with
      | none =>
          have noLog : log = [] := List.map_eq_nil_iff.mp (List.getLast?_eq_none_iff.mp last)
          rw [noLog]
          exact ⟨0, located_origin spool.nextSeq, empty 0⟩
      | some s =>
          rcases List.mem_map.mp (List.mem_of_getLast? last) with ⟨kept, inLog, rfl⟩
          have piece : (kept.1.firstSeq, ([] ++ kept.2 : List Entry)) ∈ log.pieces :=
            List.mem_map_of_mem (f := fun kept : Segment × List Entry => (kept.1.firstSeq, kept.2))
              inLog
          exact ⟨_, .here piece rfl rfl (Nat.zero_le _), empty _⟩

end Located

/-- Reading on from a rewound position ends and returns every number that waits. -/
theorem Agrees.reads_waiting {disk : Disk} {spool : Spool} {log : Log}
    (agrees : Agrees disk spool log) {limits : Nat → Nat} (positive : ∀ call, 0 < limits call) :
    ∃ calls, (spool.read disk (spool.reads disk limits spool.rewind calls).2 (limits calls)).1 = [] ∧
      (spool.reads disk limits spool.rewind calls).1.map (·.2.seq) = spool.waiting := by
  have layout := agrees.asRead.toLayout
  have recordable := Log.asRead_recordable agrees.readable
  rcases rewind_located layout with ⟨seq, located, all⟩
  rcases located_stands layout located with ⟨ahead, stands, numbers⟩
  rcases reads_end layout recordable stands limits with ⟨calls, _, ended⟩
  refine ⟨calls, ended, ?_⟩
  have returned := reads_all layout recordable stands limits positive ended
  rw [← all, ← numbers, ← returned, List.map_map]
  rfl

end PiAgents.Spooling
