import PiAgents.Spooling.Crashes

/-! A position and the number it stands at: the calls on the spool leave the number, and a read
moves it behind what it returned. -/

namespace PiAgents.Spooling

/-- An append leaves a position where it is, whatever segments go. -/
theorem Written.moves {disk : Disk} {spool : Spool} {log front mid : Log} {event : Spool.Event}
    {current : Segment × List Entry} {before : List Effect}
    (written : Written disk spool log event front mid current before)
    (follows : Follows log.pieces spool.nextSeq) (filled : ∀ piece ∈ log.pieces, piece.2 ≠ [])
    {cursor : Cursor} {seq known : Nat}
    (located : Located log.pieces spool.nextSeq cursor seq known) :
    Located (Log.pieces (mid ++ [pushed current (event.entry spool.nextSeq)]))
      (spool.nextSeq + 1) cursor seq known := by
  have pieces : Log.pieces (mid ++ [pushed current (event.entry spool.nextSeq)]) =
      mid.pieces ++ [(current.1.firstSeq, current.2 ++ [event.entry spool.nextSeq])] :=
    List.map_append
  rw [pieces]
  exact (written.active_located follows filled located).push _

/-- The records that the files of a directory give back. -/
def Disk.entries (disk : Disk) : List Entry :=
  disk.segments.flatMap fun file => (readSegment file.2).1

theorem Agrees.disk_entries {disk : Disk} {spool : Spool} {log : Log}
    (agrees : Agrees disk spool log) :
    disk.entries = log.flatMap fun kept => kept.2.map stored := by
  rw [Disk.entries, agrees.files, Log.files, List.flatMap_map]
  apply List.flatMap_congr
  intro kept member
  have read := readSegment_encodeAll (agrees.readable kept member) readFrame_nil
  rw [List.append_nil] at read
  exact congrArg Prod.fst read

theorem stored_of_recordable {log : Log}
    (recordable : ∀ kept ∈ log, ∀ entry ∈ kept.2, entry.Recordable) :
    (log.flatMap fun kept => kept.2.map stored) = log.flatMap (·.2) := by
  apply List.flatMap_congr
  intro kept member
  calc
    kept.2.map stored = kept.2.map id := by
      apply List.map_congr_left
      intro entry held
      exact stored_of_key (recordable kept member entry held).key
    _ = kept.2 := List.map_id _

theorem Log.Ordered.entries_sorted {log : Log} {next : Nat} (ordered : log.Ordered next) :
    ((log.flatMap (·.2)).map (·.seq)).Pairwise (· < ·) ∧
      ∀ entry ∈ log.flatMap (·.2), entry.seq < next := by
  have inside : ∀ kept ∈ log, ∀ entry ∈ kept.2,
      kept.1.firstSeq ≤ entry.seq ∧ entry.seq < kept.1.firstSeq + kept.1.count := by
    intro kept member entry held
    have numbered : entry.seq ∈ kept.1.seqs := by
      rw [← (ordered.holds kept member).numbered]
      exact List.mem_map_of_mem held
    exact List.mem_range'_1.mp numbered
  constructor
  · rw [List.map_flatMap, List.pairwise_flatMap]
    constructor
    · intro kept member
      rw [(ordered.holds kept member).numbered]
      exact List.pairwise_lt_range' ..
    · apply ordered.increasing.imp_of_mem
      intro first second inFirst inSecond apart a isFirst b isSecond
      rcases List.mem_map.mp isFirst with ⟨entry, held, rfl⟩
      rcases List.mem_map.mp isSecond with ⟨other, later, rfl⟩
      have below := inside first inFirst entry held
      have above := inside second inSecond other later
      omega
  · intro entry member
    rcases List.mem_flatMap.mp member with ⟨kept, inLog, held⟩
    have bounds := inside kept inLog entry held
    have below := ordered.below kept inLog
    omega

/-- Memory and files agree on a log that is read as it stands, and the position has a number in
it. -/
inductive Aligned (disk : Disk) (spool : Spool) (cursor : Cursor) (seq : Nat) : Prop where
  | mk {log : Log} (agrees : Agrees disk spool log)
      (recordable : ∀ kept ∈ log, ∀ entry ∈ kept.2, entry.Recordable)
      (located : Located log.pieces spool.nextSeq cursor seq 0)

namespace Aligned

variable {disk : Disk} {spool : Spool} {cursor : Cursor} {seq : Nat}

theorem of_agrees {log : Log} (agrees : Agrees disk spool log)
    (located : Located log.pieces spool.nextSeq cursor seq 0) : Aligned disk spool cursor seq :=
  .mk agrees.asRead (Log.asRead_recordable agrees.readable) located.asRead

theorem inOrder (aligned : Aligned disk spool cursor seq) : InOrder spool := by
  cases aligned with
  | mk agrees _ _ => exact agrees.toLayout.inOrder

theorem unacked (aligned : Aligned disk spool cursor seq) :
    spool.unacked = spool.waiting.length := by
  cases aligned with
  | mk agrees _ _ => rw [agrees.toLayout.unacked, agrees.toLayout.waiting]

theorem append (aligned : Aligned disk spool cursor seq) {event : Spool.Event}
    (body : (entryBody (event.entry spool.nextSeq)).length < 2 ^ 32)
    {answer : Spool × Nat × Option Loss} (given : (spool.append event).2 = some answer) :
    Aligned (disk.applyAll (spool.append event).1) answer.1 cursor seq ∧
      ∃ log dropped, Appends spool answer log dropped := by
  cases aligned with
  | @mk log agrees _ located =>
      rcases agrees.append body given with
        ⟨front, mid, current, reserving, ready, before, whole, same, _, written, _, after⟩
      have sameSeq : ready.nextSeq = spool.nextSeq := by
        rw [same]
      have segments : ready.segments = log.segments := by
        rw [same]
        exact agrees.segments
      have isAnswer : (ready.appendReserved event).2 = answer := by
        rw [whole] at given
        exact Option.some.inj given
      have follows : Follows log.pieces ready.nextSeq := by
        rw [sameSeq]
        exact agrees.toLayout.follows
      have ordered : log.Ordered ready.nextSeq := by
        rw [sameSeq]
        exact agrees.ordered
      have next := appendReserved_nextSeq ready event
      rw [← sameSeq] at located
      have moved := written.moves follows (ReaderRun.Sound.filled_pieces agrees.toLayout) located
      rw [← next, isAnswer, sameSeq] at moved
      have appends := written.appends ordered segments
      rw [isAnswer] at appends
      exact ⟨of_agrees after moved, log, front, appends.reserved same⟩

theorem ack (aligned : Aligned disk spool cursor seq) (number : Nat) :
    Aligned (disk.applyAll (spool.ack number).1) (spool.ack number).2 cursor seq ∧
      Acknowledges spool number (spool.ack number).2 := by
  cases aligned with
  | @mk log agrees _ located =>
      rcases agrees.ack number with ⟨front, rest, parts, _, after⟩
      have acknowledges := agrees.toLayout.acknowledges number
      have split : log.pieces = front.pieces ++ rest.pieces := by
        rw [← Log.acknowledge_pieces log number, parts]
        exact List.map_append
      have follows := agrees.toLayout.follows
      have filled := ReaderRun.Sound.filled_pieces agrees.toLayout
      rw [split] at located follows filled
      have left' := located.drop follows fun piece member =>
        filled piece (List.mem_append_left _ member)
      rw [← acknowledges.next] at left'
      exact ⟨of_agrees after left', acknowledges⟩

theorem sync (aligned : Aligned disk spool cursor seq) :
    Aligned (disk.applyAll spool.sync) spool cursor seq := by
  cases aligned with
  | mk agrees recordable located => exact .mk agrees.sync recordable located

theorem rewind (aligned : Aligned disk spool cursor seq) :
    ∃ first, Aligned disk spool spool.rewind first ∧ spool.waitingFrom first = spool.waiting := by
  cases aligned with
  | mk agrees recordable _ =>
      rcases rewind_located agrees.toLayout with ⟨first, located, all⟩
      exact ⟨first, .mk agrees recordable located, all⟩

theorem of_opened {config : SpoolConfig} {files : List StoredFile}
    (recoverable : Recoverable disk files) (opened : (Spool.open config disk).2 = some spool) :
    ∃ first, Aligned (disk.applyAll (Spool.open config disk).1) spool spool.rewind first ∧
      spool.waitingFrom first = spool.waiting := by
  rcases Agrees.recovered recoverable opened with ⟨_, log, agrees, _⟩
  rcases rewind_located agrees.toLayout with ⟨first, located, all⟩
  exact ⟨first, of_agrees agrees located, all⟩

theorem entries_append (aligned : Aligned disk spool cursor seq) {event : Spool.Event}
    (body : (entryBody (event.entry spool.nextSeq)).length < 2 ^ 32)
    {answer : Spool × Nat × Option Loss} (given : (spool.append event).2 = some answer) :
    ∀ entry ∈ (disk.applyAll (spool.append event).1).entries,
      entry ∈ disk.entries ∨ entry = stored (event.entry spool.nextSeq) := by
  cases aligned with
  | @mk log agrees recordable located =>
      rcases agrees.append body given with
        ⟨front, mid, current, reserving, ready, before, whole, same, _, written, _, after⟩
      have sameSeq : ready.nextSeq = spool.nextSeq := by
        rw [same]
      intro entry member
      rw [after.disk_entries] at member
      rw [agrees.disk_entries]
      rcases List.mem_flatMap.mp member with ⟨kept, inAfter, held⟩
      rcases List.mem_map.mp held with ⟨kind, original, rfl⟩
      have old : (∃ before ∈ mid ++ [current], kind ∈ before.2) →
          stored kind ∈ log.flatMap fun kept => kept.2.map stored := by
        rintro ⟨before, inRest, inBefore⟩
        rcases written.entries_of_log before inRest kind inBefore with ⟨first, inLog, inFirst⟩
        exact List.mem_flatMap.mpr ⟨first, inLog, List.mem_map_of_mem inFirst⟩
      rcases List.mem_append.mp inAfter with older | last
      · exact Or.inl (old ⟨kept, List.mem_append_left _ older, original⟩)
      · rw [List.mem_singleton.mp last] at original
        rcases List.mem_append.mp original with inCurrent | new
        · exact Or.inl (old ⟨current, List.mem_append_right _ (List.mem_singleton_self _),
            inCurrent⟩)
        · exact Or.inr (congrArg stored (List.mem_singleton.mp new))

theorem entries_ack (aligned : Aligned disk spool cursor seq) (number : Nat) :
    ∀ entry ∈ (disk.applyAll (spool.ack number).1).entries, entry ∈ disk.entries := by
  cases aligned with
  | @mk log agrees recordable located =>
      rcases agrees.ack number with ⟨front, rest, parts, _, after⟩
      intro entry member
      rw [after.disk_entries] at member
      rw [agrees.disk_entries]
      rcases List.mem_flatMap.mp member with ⟨kept, inRest, held⟩
      have inWhole : kept ∈ log.acknowledge number := by
        rw [parts]
        exact List.mem_append_right _ inRest
      rcases List.mem_map.mp inWhole with ⟨old, inLog, rfl⟩
      apply List.mem_flatMap.mpr
      refine ⟨old, inLog, ?_⟩
      by_cases marked : old.1.contains number = true
      · simpa only [marked, if_true] using held
      · simpa only [marked] using held

theorem entries_sorted (aligned : Aligned disk spool cursor seq) :
    (disk.entries.map (·.seq)).Pairwise (· < ·) ∧
      ∀ entry ∈ disk.entries, entry.seq < spool.nextSeq := by
  cases aligned with
  | mk agrees recordable located =>
      rw [agrees.disk_entries, stored_of_recordable recordable]
      exact agrees.ordered.entries_sorted

theorem entries_stored (aligned : Aligned disk spool cursor seq) :
    ∀ entry ∈ disk.entries, stored entry = entry := by
  cases aligned with
  | mk agrees recordable located =>
      intro entry member
      rw [agrees.disk_entries, stored_of_recordable recordable] at member
      rcases List.mem_flatMap.mp member with ⟨kept, inLog, held⟩
      exact stored_of_key (recordable kept inLog entry held).key

/-- What a read returns, and where it leaves the position. -/
structure Reads (disk : Disk) (spool : Spool) (seq limit : Nat)
    (read : List (Cursor × Entry) × Cursor) : Prop where
  returned : read.1.map (·.2.seq) = (spool.waitingFrom seq).take limit
  next : ∃ after, Aligned disk spool read.2 after ∧
    spool.waitingFrom after = (spool.waitingFrom seq).drop limit
  positions : ∀ found ∈ read.1, Aligned disk spool found.1 found.2.seq
  entries : ∀ found ∈ read.1, found.2 ∈ disk.entries

theorem read (aligned : Aligned disk spool cursor seq) (limit : Nat) :
    Reads disk spool seq limit (spool.read disk cursor limit) := by
  cases aligned with
  | mk agrees recordable located =>
      have read := read_seqs agrees.toLayout recordable located limit
      rcases read.next with ⟨after, place, left'⟩
      refine ⟨read.returned, ⟨after, .mk agrees recordable place, left'⟩,
        fun found member => .mk agrees recordable (read.positions found member), ?_⟩
      intro found member
      rcases read.entries found member with ⟨kept, inLog, held⟩
      rw [agrees.disk_entries, stored_of_recordable recordable]
      exact List.mem_flatMap.mpr ⟨kept, inLog, held⟩

theorem le_next (aligned : Aligned disk spool cursor seq) : seq ≤ spool.nextSeq := by
  cases aligned with
  | @mk log agrees _ located =>
      have follows := agrees.toLayout.follows
      cases located with
      | @here done todo piece offset number enough =>
          have below := follows.below _ piece
          rw [List.length_append] at below
          change cursor.segment + (done.length + todo.length) ≤ spool.nextSeq at below
          omega
      | gone after passed => omega

end Aligned

end PiAgents.Spooling
