import PiAgents.Spooling.Segments

/-! How the spool in memory and the files in its directory agree, beside the entries that were
written to each segment, and that the operations keep the agreement. -/

namespace PiAgents.Spooling

/-- The segments with the entries written to them. -/
abbrev Log := List (Segment × List Entry)

def Log.segments (log : Log) : List Segment := log.map Prod.fst

def Log.files (log : Log) : List (Nat × List UInt8) :=
  log.map fun kept => (kept.1.path, encodeAll kept.2)

structure Holds (segment : Segment) (entries : List Entry) : Prop where
  path : segment.path = segment.firstSeq
  numbered : entries.map (·.seq) = segment.seqs
  sound : segment.Sound
  bytes : segment.bytes = (encodeAll entries).length
  times : ∀ entry ∈ entries,
    segment.minTime ≤ entry.eventTimeMs ∧ entry.eventTimeMs ≤ segment.maxTime

theorem Holds.count {segment : Segment} {entries : List Entry} (holds : Holds segment entries) :
    segment.count = entries.length := by
  have lengths := congrArg List.length holds.numbered
  rw [List.length_map, Segment.seqs, List.length_range'] at lengths
  exact lengths.symm

/-- The segments are not empty and their sequence numbers follow one another. -/
structure Log.Ordered (log : Log) (nextSeq : Nat) : Prop where
  holds : ∀ kept ∈ log, Holds kept.1 kept.2
  nonempty : ∀ kept ∈ log, 0 < kept.1.count
  increasing : log.Pairwise fun a b => a.1.firstSeq + a.1.count ≤ b.1.firstSeq
  below : ∀ kept ∈ log, kept.1.firstSeq + kept.1.count ≤ nextSeq

structure Layout (disk : Disk) (spool : Spool) (log : Log) : Prop where
  ordered : log.Ordered spool.nextSeq
  segments : spool.segments = log.segments
  files : disk.segments = log.files
  writer : ∀ name ∈ spool.writer, ∃ kept, log.getLast? = some kept ∧ kept.1.path = name ∧
    kept.1.firstSeq + kept.1.count = spool.nextSeq
  total : spool.totalBytes = Spool.bytesOf spool.segments
  reserved : spool.nextSeq ≤ spool.reservedUntil
  fits : spool.reservedUntil < 2 ^ 64

namespace Log.Ordered

variable {log : Log} {nextSeq : Nat}

theorem tail {kept : Segment × List Entry} (ordered : Log.Ordered (kept :: log) nextSeq) :
    log.Ordered nextSeq where
  holds other member := ordered.holds other (List.mem_cons_of_mem _ member)
  nonempty other member := ordered.nonempty other (List.mem_cons_of_mem _ member)
  increasing := (List.pairwise_cons.mp ordered.increasing).2
  below other member := ordered.below other (List.mem_cons_of_mem _ member)

theorem suffix {front : Log} (ordered : Log.Ordered (front ++ log) nextSeq) :
    log.Ordered nextSeq := by
  induction front with
  | nil => exact ordered
  | cons kept rest ih => exact ih ordered.tail

theorem names (ordered : log.Ordered nextSeq) : log.files.Pairwise fun a b => a.1 ≠ b.1 := by
  apply List.pairwise_map.mpr
  apply ordered.increasing.imp_of_mem
  intro first second inFirst inSecond after
  change first.1.path ≠ second.1.path
  have filled := ordered.nonempty first inFirst
  rw [(ordered.holds first inFirst).path, (ordered.holds second inSecond).path]
  omega

theorem map (ordered : log.Ordered nextSeq) (change : Segment → Segment)
    (same : ∀ kept ∈ log, (change kept.1).path = kept.1.path ∧
      (change kept.1).firstSeq = kept.1.firstSeq ∧ (change kept.1).count = kept.1.count ∧
      (change kept.1).bytes = kept.1.bytes ∧ (change kept.1).minTime = kept.1.minTime ∧
      (change kept.1).maxTime = kept.1.maxTime ∧ (change kept.1).Sound) :
    Log.Ordered (log.map fun kept => (change kept.1, kept.2)) nextSeq := by
  constructor
  · intro kept member
    rcases List.mem_map.mp member with ⟨before, inLog, rfl⟩
    rcases same before inLog with ⟨path, firstSeq, count, bytes, minTime, maxTime, sound⟩
    have holds := ordered.holds before inLog
    refine ⟨?_, ?_, sound, ?_, ?_⟩
    · rw [path, firstSeq, holds.path]
    · rw [holds.numbered, Segment.seqs, Segment.seqs, firstSeq, count]
    · rw [bytes, holds.bytes]
    · intro entry inEntries
      rw [minTime, maxTime]
      exact holds.times entry inEntries
  · intro kept member
    rcases List.mem_map.mp member with ⟨before, inLog, rfl⟩
    rw [(same before inLog).2.2.1]
    exact ordered.nonempty before inLog
  · apply List.pairwise_map.mpr
    apply ordered.increasing.imp_of_mem
    intro first second inFirst inSecond after
    change (change first.1).firstSeq + (change first.1).count ≤ (change second.1).firstSeq
    rw [(same first inFirst).2.1, (same first inFirst).2.2.1, (same second inSecond).2.1]
    exact after
  · intro kept member
    rcases List.mem_map.mp member with ⟨before, inLog, rfl⟩
    change (change before.1).firstSeq + (change before.1).count ≤ nextSeq
    rw [(same before inLog).2.1, (same before inLog).2.2.1]
    exact ordered.below before inLog

end Log.Ordered

namespace Disk

theorem applyAll_append (disk : Disk) (first second : List Effect) :
    disk.applyAll (first ++ second) = (disk.applyAll first).applyAll second :=
  List.foldl_append

theorem remove_segments (disk : Disk) (name : Nat) :
    (disk.apply (.removeSegment name)).segments = disk.segments.filter (·.1 ≠ name) := rfl

private theorem remove_front {front rest : Log}
    (names : (Log.files (front ++ rest)).Pairwise fun a b => a.1 ≠ b.1) {disk : Disk}
    (files : disk.segments = Log.files (front ++ rest)) :
    (disk.applyAll (Spool.removals front.segments)).segments = rest.files := by
  induction front generalizing disk with
  | nil => exact files
  | cons kept front ih =>
      have apart := List.pairwise_cons.mp names
      have others : (Log.files (front ++ rest)).filter (·.1 ≠ kept.1.path) =
          Log.files (front ++ rest) := by
        apply List.filter_eq_self.mpr
        intro file member
        exact decide_eq_true (apart.1 file member).symm
      have removed : (disk.apply (.removeSegment kept.1.path)).segments =
          Log.files (front ++ rest) := by
        rw [remove_segments, files]
        change ((kept.1.path, encodeAll kept.2) :: Log.files (front ++ rest)).filter _ = _
        rw [List.filter_cons]
        simp only [ne_eq, not_true_eq_false, decide_false, Bool.false_eq_true, if_false]
        exact others
      exact ih apart.2 removed

theorem append_last {log : Log} {current : Segment × List Entry}
    (names : (Log.files (log ++ [current])).Pairwise fun a b => a.1 ≠ b.1) {disk : Disk}
    (files : disk.segments = Log.files (log ++ [current])) (record : List UInt8) :
    (disk.apply (.appendSegment current.1.path record)).segments =
      log.files ++ [(current.1.path, encodeAll current.2 ++ record)] := by
  have split : Log.files (log ++ [current]) =
      log.files ++ [(current.1.path, encodeAll current.2)] := List.map_append
  rw [split] at names files
  have apart := (List.pairwise_append.mp names).2.2
  change disk.segments.map _ = _
  rw [files, List.map_append]
  congr 1
  · have same : ∀ file ∈ log.files, (if file.1 = current.1.path then
        (file.1, file.2 ++ record) else file) = file := by
      intro file member
      exact if_neg (apart file member _ (List.mem_singleton_self _))
    exact (List.map_congr_left same).trans (List.map_id _)
  · simp only [List.map_cons, List.map_nil, if_true]

end Disk

namespace Spool

theorem bytesOf_append (first second : List Segment) :
    bytesOf (first ++ second) = bytesOf first + bytesOf second := by
  rw [bytesOf, List.map_append, List.sum_append]
  rfl

private theorem ackedFront_split (segments : List Segment) :
    (ackedFront segments).1 ++ (ackedFront segments).2 = segments := by
  induction segments with
  | nil => rfl
  | cons first rest ih =>
      cases rest with
      | nil => rfl
      | cons second rest =>
          rw [ackedFront]
          by_cases acked : first.unacked = 0
          · rw [if_pos acked]
            exact congrArg (first :: ·) ih
          · rw [if_neg acked]
            rfl

private theorem ackedFront_acked (segments : List Segment) :
    ∀ s ∈ (ackedFront segments).1, s.unacked = 0 := by
  induction segments with
  | nil =>
      intro s member
      cases member
  | cons first rest ih =>
      cases rest with
      | nil =>
          intro s member
          cases member
      | cons second rest =>
          rw [ackedFront]
          by_cases acked : first.unacked = 0
          · rw [if_pos acked]
            intro s member
            rcases List.mem_cons.mp member with rfl | later
            · exact acked
            · exact ih s later
          · rw [if_neg acked]
            intro s member
            cases member

private theorem ackedFront_nonempty {segments : List Segment} (nonempty : segments ≠ []) :
    (ackedFront segments).2 ≠ [] := by
  induction segments with
  | nil => exact absurd rfl nonempty
  | cons first rest ih =>
      cases rest with
      | nil => exact List.cons_ne_nil _ _
      | cons second rest =>
          rw [ackedFront]
          by_cases acked : first.unacked = 0
          · rw [if_pos acked]
            exact ih (List.cons_ne_nil _ _)
          · rw [if_neg acked]
            exact List.cons_ne_nil _ _

theorem overLimit_split (maxBytes incoming totalBytes : Nat) (segments : List Segment) :
    (overLimit maxBytes incoming totalBytes segments).1 ++
      (overLimit maxBytes incoming totalBytes segments).2 = segments := by
  induction segments generalizing totalBytes with
  | nil => rfl
  | cons first rest ih =>
      cases rest with
      | nil => rfl
      | cons second rest =>
          rw [overLimit]
          by_cases full : maxBytes < totalBytes + incoming
          · rw [if_pos full]
            exact congrArg (first :: ·) (ih (totalBytes - first.bytes))
          · rw [if_neg full]
            rfl

theorem overLimit_nonempty (maxBytes incoming totalBytes : Nat) {segments : List Segment}
    (nonempty : segments ≠ []) : (overLimit maxBytes incoming totalBytes segments).2 ≠ [] := by
  induction segments generalizing totalBytes with
  | nil => exact absurd rfl nonempty
  | cons first rest ih =>
      cases rest with
      | nil => exact List.cons_ne_nil _ _
      | cons second rest =>
          rw [overLimit]
          by_cases full : maxBytes < totalBytes + incoming
          · rw [if_pos full]
            exact ih (totalBytes - first.bytes) (List.cons_ne_nil _ _)
          · rw [if_neg full]
            exact List.cons_ne_nil _ _

end Spool

theorem Log.split {log : Log} {front rest : List Segment}
    (parts : front ++ rest = log.segments) :
    ∃ first second : Log, log = first ++ second ∧ first.segments = front ∧
      second.segments = rest :=
  List.map_eq_append_iff.mp parts.symm

theorem Layout.drop {disk : Disk} {spool : Spool} {front rest : Log}
    (layout : Layout disk spool (front ++ rest)) (nonempty : rest = [] → front = []) :
    Layout (disk.applyAll (Spool.removals front.segments))
      { spool with
        segments := rest.segments
        totalBytes := spool.totalBytes - Spool.bytesOf front.segments } rest where
  ordered := layout.ordered.suffix
  segments := rfl
  files := Disk.remove_front layout.ordered.names layout.files
  writer := by
    intro name opened
    rcases layout.writer name opened with ⟨kept, last, path⟩
    rw [List.getLast?_append] at last
    cases found : rest.getLast? with
    | none =>
        have noFront := nonempty (List.getLast?_eq_none_iff.mp found)
        rw [found, noFront] at last
        cases last
    | some other =>
        rw [found] at last
        exact ⟨kept, last, path⟩
  total := by
    change spool.totalBytes - _ = Spool.bytesOf rest.segments
    have parts : Log.segments (front ++ rest) = front.segments ++ rest.segments := List.map_append
    rw [layout.total, layout.segments, parts, Spool.bytesOf_append, Nat.add_sub_cancel_left]
  reserved := layout.reserved
  fits := layout.fits

theorem Layout.dropAckedFront {disk : Disk} {spool : Spool} {log : Log}
    (layout : Layout disk spool log) : ∃ front rest : Log, log = front ++ rest ∧
      (∀ kept ∈ front, kept.1.unacked = 0) ∧ (rest = [] → log = []) ∧
      Layout (disk.applyAll spool.dropAckedFront.1) spool.dropAckedFront.2 rest := by
  have acked := Spool.ackedFront_acked spool.segments
  have split : (Spool.ackedFront spool.segments).1 ++ (Spool.ackedFront spool.segments).2 =
      log.segments := by
    rw [Spool.ackedFront_split, layout.segments]
  rcases Log.split split with ⟨front, rest, rfl, isFront, isRest⟩
  have whole : rest = [] → front ++ rest = [] := by
    intro none
    by_contra filled
    have some' : spool.segments ≠ [] := by
      rw [layout.segments]
      exact fun empty => filled (List.map_eq_nil_iff.mp empty)
    apply Spool.ackedFront_nonempty some'
    rw [← isRest, none]
    rfl
  refine ⟨front, rest, rfl, ?_, whole, ?_⟩
  · intro kept member
    apply acked
    rw [← isFront]
    exact List.mem_map_of_mem member
  · have dropped := layout.drop fun none => (List.append_eq_nil_iff.mp (whole none)).1
    rw [isFront, isRest] at dropped
    exact dropped

def Log.acknowledge (log : Log) (seq : Nat) : Log :=
  log.map fun kept => (if kept.1.contains seq then kept.1.setAcked seq else kept.1, kept.2)

namespace Log.Ordered

variable {log : Log} {nextSeq : Nat}

theorem later_excludes {kept : Segment × List Entry}
    (ordered : Log.Ordered (kept :: log) nextSeq) {seq : Nat}
    (held : kept.1.contains seq = true) : ∀ other ∈ log, other.1.contains seq = false := by
  intro other member
  have bounds := (kept.1.contains_iff seq).mp held
  have after := (List.pairwise_cons.mp ordered.increasing).1 other member
  rw [Bool.eq_false_iff]
  intro also
  have otherBounds := (other.1.contains_iff seq).mp also
  omega

theorem acknowledge_unknown {seq : Nat} (unknown : ∀ kept ∈ log, kept.1.contains seq = false) :
    log.acknowledge seq = log := by
  have same : ∀ kept ∈ log, (if kept.1.contains seq then kept.1.setAcked seq else kept.1,
      kept.2) = kept := by
    intro kept member
    rw [unknown kept member]
    rfl
  exact (List.map_congr_left same).trans (List.map_id _)

theorem ackSegments_eq (ordered : log.Ordered nextSeq) (seq : Nat) :
    Spool.ackSegments log.segments seq = (log.acknowledge seq).segments := by
  induction log with
  | nil => rfl
  | cons kept rest ih =>
      change Spool.ackSegments (kept.1 :: Log.segments rest) seq =
        (if kept.1.contains seq then kept.1.setAcked seq else kept.1) ::
          (Log.acknowledge rest seq).segments
      rw [Spool.ackSegments]
      by_cases held : kept.1.contains seq = true
      · rw [if_pos held, if_pos held, acknowledge_unknown (ordered.later_excludes held)]
      · rw [if_neg held, if_neg held, ih ordered.tail]

theorem acknowledge (ordered : log.Ordered nextSeq) (seq : Nat) :
    (log.acknowledge seq).Ordered nextSeq := by
  apply ordered.map fun s => if s.contains seq then s.setAcked seq else s
  intro kept member
  have sound := (ordered.holds kept member).sound
  by_cases held : kept.1.contains seq = true
  · simp only [held, if_true]
    exact ⟨rfl, rfl, rfl, rfl, rfl, rfl, sound.setAcked held⟩
  · simp only [held]
    exact ⟨rfl, rfl, rfl, rfl, rfl, rfl, sound⟩

end Log.Ordered

theorem Log.acknowledge_files (log : Log) (seq : Nat) :
    (log.acknowledge seq).files = log.files := by
  rw [Log.files, Log.acknowledge, List.map_map]
  apply List.map_congr_left
  intro kept _
  by_cases held : kept.1.contains seq = true
  · simp only [Function.comp_apply, held, if_true, Segment.setAcked_path]
  · simp only [Function.comp_apply, held]
    rfl

theorem Log.acknowledge_bytes (log : Log) (seq : Nat) :
    Spool.bytesOf (log.acknowledge seq).segments = Spool.bytesOf log.segments := by
  rw [Spool.bytesOf, Spool.bytesOf, Log.segments, Log.segments, Log.acknowledge, List.map_map,
    List.map_map, List.map_map]
  congr 1
  apply List.map_congr_left
  intro kept _
  by_cases held : kept.1.contains seq = true
  · simp only [Function.comp_apply, held, if_true, Segment.setAcked_bytes]
  · simp only [Function.comp_apply, held]
    rfl

theorem Log.acknowledge_getLast (log : Log) (seq : Nat) :
    (log.acknowledge seq).getLast? = log.getLast?.map fun kept =>
      (if kept.1.contains seq then kept.1.setAcked seq else kept.1, kept.2) :=
  List.getLast?_map

/-- An acknowledgement sets a bit and drops what it leaves fully acknowledged at the front. -/
theorem Layout.ack {disk : Disk} {spool : Spool} {log : Log} (layout : Layout disk spool log)
    (seq : Nat) : ∃ front rest : Log, log.acknowledge seq = front ++ rest ∧
      (∀ kept ∈ front, kept.1.unacked = 0) ∧
      Layout (disk.applyAll (spool.ack seq).1) (spool.ack seq).2 rest := by
  by_cases known : spool.segments.any (·.contains seq) = true
  · have marked : Layout disk
        { spool with segments := Spool.ackSegments spool.segments seq } (log.acknowledge seq) := by
      constructor
      · exact layout.ordered.acknowledge seq
      · change Spool.ackSegments spool.segments seq = _
        rw [layout.segments, layout.ordered.ackSegments_eq]
      · rw [layout.files, Log.acknowledge_files]
      · intro name opened
        rcases layout.writer name opened with ⟨kept, last, path, ends⟩
        rw [Log.acknowledge_getLast, last]
        refine ⟨_, rfl, ?_, ?_⟩
        · by_cases held : kept.1.contains seq = true
          · simp only [held, if_true, Segment.setAcked_path, path]
          · simp only [held]
            exact path
        · by_cases held : kept.1.contains seq = true
          · simp only [held, if_true, Segment.setAcked_firstSeq, Segment.setAcked_count, ends]
          · simp only [held]
            exact ends
      · change spool.totalBytes = Spool.bytesOf (Spool.ackSegments spool.segments seq)
        rw [layout.total, layout.segments, layout.ordered.ackSegments_eq, Log.acknowledge_bytes]
      · exact layout.reserved
      · exact layout.fits
    rcases marked.dropAckedFront with ⟨front, rest, parts, acked, _, dropped⟩
    refine ⟨front, rest, parts, acked, ?_⟩
    rw [Spool.ack, if_pos known]
    exact dropped
  · have unknown : ∀ kept ∈ log, kept.1.contains seq = false := by
      intro kept member
      rw [Bool.eq_false_iff]
      intro held
      apply known
      rw [layout.segments]
      exact List.any_eq_true.mpr ⟨kept.1, List.mem_map_of_mem member, held⟩
    refine ⟨[], log, Log.Ordered.acknowledge_unknown unknown, ?_, ?_⟩
    · intro kept member
      cases member
    · rw [Spool.ack, if_neg known]
      exact layout

/-- A log whose last segment is open for appending and may still be empty. -/
structure Opened (disk : Disk) (spool : Spool) (older : Log) (current : Segment × List Entry) :
    Prop where
  closed : older.Ordered current.1.firstSeq
  holds : Holds current.1 current.2
  ends : current.1.firstSeq + current.1.count = spool.nextSeq
  segments : spool.segments = Log.segments (older ++ [current])
  files : disk.segments = Log.files (older ++ [current])
  writer : spool.writer = some current.1.path
  total : spool.totalBytes = Spool.bytesOf spool.segments
  reserved : spool.nextSeq < spool.reservedUntil
  fits : spool.reservedUntil < 2 ^ 64

/-- The segments with the active one that the append writes to. -/
def Spool.opened (spool : Spool) (log : Log) (recordLen : Nat) : Log :=
  if spool.needsRotation recordLen then log ++ [(Segment.new spool.nextSeq spool.nextSeq, [])]
  else log

namespace Layout

variable {disk : Disk} {spool : Spool} {log : Log}

theorem rotate (layout : Layout disk spool log) (room : spool.nextSeq < spool.reservedUntil) :
    Opened (disk.applyAll (spool.rotate spool.nextSeq).1) (spool.rotate spool.nextSeq).2 log
      (Segment.new spool.nextSeq spool.nextSeq, []) := by
  have fresh : ¬ disk.segments.any (·.1 == spool.nextSeq) = true := by
    rw [layout.files]
    intro taken
    rcases List.any_eq_true.mp taken with ⟨file, member, named⟩
    rcases List.mem_map.mp member with ⟨kept, inLog, rfl⟩
    have filled := layout.ordered.nonempty kept inLog
    have below := layout.ordered.below kept inLog
    have path := (layout.ordered.holds kept inLog).path
    have same : kept.1.path = spool.nextSeq := beq_iff_eq.mp named
    omega
  constructor
  · exact layout.ordered
  · exact ⟨rfl, rfl, Segment.sound_new _ _, rfl, fun entry member => absurd member List.not_mem_nil⟩
  · rfl
  · change spool.segments ++ _ = _
    rw [layout.segments, Log.segments, Log.segments, List.map_append]
    rfl
  · change (disk.apply (.createSegment spool.nextSeq)).segments = _
    rw [Disk.apply, if_neg fresh, Log.files, List.map_append]
    change disk.segments ++ _ = _
    rw [layout.files]
    rfl
  · rfl
  · change spool.totalBytes = Spool.bytesOf (spool.segments ++ _)
    rw [Spool.bytesOf_append, layout.total]
    rfl
  · exact room
  · exact layout.fits

theorem keep (layout : Layout disk spool log) (room : spool.nextSeq < spool.reservedUntil)
    {recordLen : Nat} (fits : ¬ spool.needsRotation recordLen = true) :
    ∃ older current, log = older ++ [current] ∧ Opened disk spool older current := by
  cases last : spool.segments.getLast? with
  | none =>
      rw [Spool.needsRotation, last] at fits
      exact absurd rfl fits
  | some segment =>
      rw [Spool.needsRotation, last, Bool.or_eq_true, not_or] at fits
      cases opened : spool.writer with
      | none =>
          rw [opened] at fits
          exact absurd rfl fits.1
      | some name =>
          rcases layout.writer name opened with ⟨current, isLast, path, ends⟩
          rcases List.getLast?_eq_some_iff.mp isLast with ⟨older, rfl⟩
          refine ⟨older, current, rfl, ?_⟩
          have inLog : current ∈ older ++ [current] :=
            List.mem_append_right _ (List.mem_singleton_self _)
          constructor
          · have increasing := List.pairwise_append.mp layout.ordered.increasing
            constructor
            · intro kept member
              exact layout.ordered.holds kept (List.mem_append_left _ member)
            · intro kept member
              exact layout.ordered.nonempty kept (List.mem_append_left _ member)
            · exact increasing.1
            · intro kept member
              exact increasing.2.2 kept member current (List.mem_singleton_self _)
          · exact layout.ordered.holds current inLog
          · exact ends
          · exact layout.segments
          · exact layout.files
          · rw [opened, path]
          · exact layout.total
          · exact room
          · exact layout.fits

end Layout

theorem time_le_max_left (a b : Int64) : a ≤ max a b := by
  change a ≤ if a ≤ b then b else a
  split
  · assumption
  · exact Int64.le_refl a

theorem time_le_max_right (a b : Int64) : b ≤ max a b := by
  change b ≤ if a ≤ b then b else a
  split
  · exact Int64.le_refl b
  · exact (Int64.le_total a b).resolve_left ‹_›

/-- The active segment with one more record. -/
def pushed (current : Segment × List Entry) (entry : Entry) : Segment × List Entry :=
  (current.1.push entry.eventTimeMs (encodeEntry entry).length, current.2 ++ [entry])

theorem Holds.push {current : Segment × List Entry} (holds : Holds current.1 current.2)
    {entry : Entry} (next : entry.seq = current.1.firstSeq + current.1.count) :
    Holds (pushed current entry).1 (pushed current entry).2 where
  path := holds.path
  numbered := by
    change (current.2 ++ [entry]).map (·.seq) = _
    rw [List.map_append, holds.numbered]
    change _ = (current.1.push _ _).seqs
    rw [Segment.push_seqs, ← next]
    rfl
  sound := holds.sound.push _ _
  bytes := by
    change current.1.bytes + _ = (encodeAll (current.2 ++ [entry])).length
    rw [encodeAll_append, List.length_append, holds.bytes, encodeAll_cons, encodeAll_nil,
      List.append_nil]
  times := by
    intro other member
    change min current.1.minTime entry.eventTimeMs ≤ other.eventTimeMs ∧
      other.eventTimeMs ≤ max current.1.maxTime entry.eventTimeMs
    rcases List.mem_append.mp member with old | new
    · have within := holds.times other old
      exact ⟨Int64.le_trans Std.min_le_left within.1,
        Int64.le_trans within.2 (time_le_max_left _ _)⟩
    · rw [List.mem_singleton.mp new]
      exact ⟨Std.min_le_right, time_le_max_right _ _⟩

namespace Opened

variable {disk : Disk} {spool : Spool} {older : Log} {current : Segment × List Entry}

theorem names (opened : Opened disk spool older current) :
    (Log.files (older ++ [current])).Pairwise fun a b => a.1 ≠ b.1 := by
  rw [Log.files, List.map_append]
  apply List.pairwise_append.mpr
  refine ⟨opened.closed.names, List.pairwise_singleton _ _, ?_⟩
  intro file member other single
  rcases List.mem_map.mp member with ⟨kept, inOlder, rfl⟩
  rw [List.mem_singleton.mp single]
  change kept.1.path ≠ current.1.path
  have filled := opened.closed.nonempty kept inOlder
  have below := opened.closed.below kept inOlder
  rw [(opened.closed.holds kept inOlder).path, opened.holds.path]
  omega

theorem limit (opened : Opened disk spool older current) (incoming : Nat) :
    ∃ front mid : Log, older = front ++ mid ∧
      (Spool.overLimit spool.config.maxBytes incoming spool.totalBytes spool.segments).1 =
        front.segments ∧
      (Spool.overLimit spool.config.maxBytes incoming spool.totalBytes spool.segments).2 =
        Log.segments (mid ++ [current]) := by
  have split := Spool.overLimit_split spool.config.maxBytes incoming spool.totalBytes
    spool.segments
  have filled : spool.segments ≠ [] := by
    rw [opened.segments, Log.segments, List.map_append]
    exact List.append_ne_nil_of_right_ne_nil _ (List.cons_ne_nil _ _)
  have remains := Spool.overLimit_nonempty spool.config.maxBytes incoming spool.totalBytes filled
  rw [opened.segments] at split
  rcases Log.split (split.trans rfl) with ⟨front, rest, parts, isFront, isRest⟩
  rcases List.eq_nil_or_concat rest with none | ⟨mid, last, rfl⟩
  · rw [← opened.segments, none] at isRest
    exact absurd isRest.symm remains
  · rw [List.concat_eq_append, ← List.append_assoc] at parts
    rcases List.append_inj' parts rfl with ⟨sameOlder, sameLast⟩
    cases sameLast
    rw [List.concat_eq_append] at isRest
    rw [opened.segments]
    exact ⟨front, mid, sameOlder, isFront.symm, isRest.symm⟩

theorem pushLast_current (mid : Log) (current : Segment × List Entry) (entry : Entry) :
    Spool.pushLast (Log.segments (mid ++ [current])) entry.eventTimeMs (encodeEntry entry).length =
      Log.segments (mid ++ [pushed current entry]) := by
  have parts : ∀ last : Segment × List Entry,
      Log.segments (mid ++ [last]) = Log.segments mid ++ [last.1] := fun _ => List.map_append
  rw [parts, parts, Spool.pushLast, List.getLast?_concat]
  simp only [List.dropLast_concat, pushed]

theorem ordered_write {mid front : Log} (opened : Opened disk spool (front ++ mid) current)
    {entry : Entry} (next : entry.seq = spool.nextSeq) :
    (mid ++ [pushed current entry] : Log).Ordered (spool.nextSeq + 1) := by
  have closed : mid.Ordered current.1.firstSeq := opened.closed.suffix
  have holds := opened.holds.push (next.trans opened.ends.symm)
  constructor
  · intro kept member
    rcases List.mem_append.mp member with old | new
    · exact closed.holds kept old
    · rw [List.mem_singleton.mp new]
      exact holds
  · intro kept member
    rcases List.mem_append.mp member with old | new
    · exact closed.nonempty kept old
    · rw [List.mem_singleton.mp new]
      exact Nat.succ_pos _
  · apply List.pairwise_append.mpr
    refine ⟨closed.increasing, List.pairwise_singleton _ _, ?_⟩
    intro kept member last single
    rw [List.mem_singleton.mp single]
    exact closed.below kept member
  · intro kept member
    rcases List.mem_append.mp member with old | new
    · have below := closed.below kept old
      have ends := opened.ends
      omega
    · rw [List.mem_singleton.mp new]
      have ends := opened.ends
      change current.1.firstSeq + (current.1.count + 1) ≤ spool.nextSeq + 1
      omega

end Opened

/-- The segments that are dropped to make room for the record. -/
def Spool.makesRoom (spool : Spool) (event : Spool.Event) : List Segment :=
  let record := encodeEntry (event.entry spool.nextSeq)
  let active := if spool.needsRotation record.length then (spool.rotate spool.nextSeq).2 else spool
  (Spool.overLimit spool.config.maxBytes record.length spool.totalBytes active.segments).1

/-- An append, taken apart: the segments it drops, those that stay, the active one and the effects
before the record is written. -/
structure Written (disk : Disk) (spool : Spool) (log : Log) (event : Spool.Event)
    (front mid : Log) (current : Segment × List Entry) (before : List Effect) : Prop where
  parts : spool.opened log (encodeEntry (event.entry spool.nextSeq)).length =
    front ++ (mid ++ [current])
  ends : current.1.firstSeq + current.1.count = spool.nextSeq
  closed : mid.Ordered current.1.firstSeq
  holds : Holds current.1 current.2
  effects : (spool.appendReserved event).1 = before ++
    [.appendSegment current.1.path (encodeEntry (event.entry spool.nextSeq))]
  files : (disk.applyAll before).segments = Log.files (mid ++ [current])
  loss : (spool.appendReserved event).2.2.2 = Spool.lossOf front.segments
  room : spool.makesRoom event = front.segments
  layout : Layout (disk.applyAll (spool.appendReserved event).1) (spool.appendReserved event).2.1
    (mid ++ [pushed current (event.entry spool.nextSeq)])

theorem Log.names_suffix {front rest : Log}
    (names : (Log.files (front ++ rest)).Pairwise fun a b => a.1 ≠ b.1) :
    rest.files.Pairwise fun a b => a.1 ≠ b.1 := by
  have parts : Log.files (front ++ rest) = front.files ++ rest.files := List.map_append
  rw [parts] at names
  exact (List.pairwise_append.mp names).2.1

theorem Spool.makesRoom_active {spool active : Spool} {event : Spool.Event} {first : List Effect}
    (isActive : (if spool.needsRotation (encodeEntry (event.entry spool.nextSeq)).length then
      spool.rotate spool.nextSeq else ([], spool)) = (first, active)) :
    spool.makesRoom event = (Spool.overLimit active.config.maxBytes
      (encodeEntry (event.entry spool.nextSeq)).length active.totalBytes active.segments).1 := by
  rw [makesRoom]
  split at isActive
  · cases isActive
    rw [if_pos ‹_›]
    rfl
  · cases isActive
    rw [if_neg ‹_›]

/-- The active segment takes the record after a front of the others made room for it. -/
theorem Opened.written {disk : Disk} {spool active : Spool} {older : Log}
    {current : Segment × List Entry} {first : List Effect}
    (opened : Opened (disk.applyAll first) active older current) (log : Log) (event : Spool.Event)
    (isActive : (if spool.needsRotation (encodeEntry (event.entry spool.nextSeq)).length then
      spool.rotate spool.nextSeq else ([], spool)) = (first, active))
    (sameSeq : active.nextSeq = spool.nextSeq)
    (parts : spool.opened log (encodeEntry (event.entry spool.nextSeq)).length =
      older ++ [current]) :
    ∃ front mid before, Written disk spool log event front mid current before := by
  rcases opened.limit (encodeEntry (event.entry spool.nextSeq)).length with
    ⟨front, mid, rfl, isFront, isRest⟩
  have names := opened.names
  have files := opened.files
  rw [List.append_assoc] at names files
  have removed := Disk.remove_front names files
  have appended := Disk.append_last (Log.names_suffix names) removed
    (encodeEntry (event.entry spool.nextSeq))
  have written : spool.appendReserved event =
      (first ++ Spool.removals front.segments ++
        [.appendSegment current.1.path (encodeEntry (event.entry spool.nextSeq))],
        { active with
          segments := Spool.pushLast (Log.segments (mid ++ [current])) event.eventTimeMs
            (encodeEntry (event.entry spool.nextSeq)).length
          totalBytes := active.totalBytes - Spool.bytesOf front.segments +
            (encodeEntry (event.entry spool.nextSeq)).length
          nextSeq := active.nextSeq + 1 },
        spool.nextSeq, Spool.lossOf front.segments) := by
    simp only [Spool.appendReserved, isActive, Spool.enforceLimit, isFront, isRest, opened.writer,
      Option.toList_some, List.map_cons, List.map_nil]
  have closed : mid.Ordered current.1.firstSeq := opened.closed.suffix
  refine ⟨front, mid, first ++ Spool.removals front.segments, ?_⟩
  constructor
  · rw [parts, List.append_assoc]
  · rw [opened.ends, sameSeq]
  · exact closed
  · exact opened.holds
  · rw [written]
  · rw [Disk.applyAll_append, removed]
  · rw [written]
  · rw [← isFront, Spool.makesRoom_active isActive]
  · rw [written]
    constructor
    · change (mid ++ [pushed current _] : Log).Ordered (active.nextSeq + 1)
      exact opened.ordered_write sameSeq.symm
    · exact Opened.pushLast_current mid current (event.entry spool.nextSeq)
    · rw [Disk.applyAll_append, Disk.applyAll_append]
      change (((disk.applyAll first).applyAll (Spool.removals front.segments)).apply
        (.appendSegment current.1.path (encodeEntry (event.entry spool.nextSeq)))).segments = _
      rw [appended, Log.files, Log.files, List.map_append]
      congr 1
      change [(current.1.path, encodeAll current.2 ++ _)] =
        [(current.1.path, encodeAll (current.2 ++ [_]))]
      rw [encodeAll_append, encodeAll_cons, encodeAll_nil, List.append_nil]
    · intro name isWriter
      change name ∈ active.writer at isWriter
      rw [opened.writer] at isWriter
      cases isWriter
      refine ⟨pushed current (event.entry spool.nextSeq), List.getLast?_concat, rfl, ?_⟩
      change current.1.firstSeq + (current.1.count + 1) = active.nextSeq + 1
      rw [← opened.ends, Nat.add_assoc]
    · change active.totalBytes - _ + _ = Spool.bytesOf (Spool.pushLast _ _ _)
      have rebuilt := Opened.pushLast_current mid current (event.entry spool.nextSeq)
      change Spool.pushLast (Log.segments (mid ++ [current])) event.eventTimeMs _ = _ at rebuilt
      have whole : Log.segments (front ++ mid ++ [current]) =
          front.segments ++ (mid.segments ++ [current.1]) := by
        rw [Log.segments, List.append_assoc, List.map_append, List.map_append]
        rfl
      have kept : Log.segments (mid ++ [pushed current (event.entry spool.nextSeq)]) =
          mid.segments ++ [(pushed current (event.entry spool.nextSeq)).1] := List.map_append
      rw [rebuilt, opened.total, opened.segments, whole, kept, Spool.bytesOf_append,
        Spool.bytesOf_append, Spool.bytesOf_append, Nat.add_sub_cancel_left, Nat.add_assoc]
      congr 1
    · exact opened.reserved
    · exact opened.fits

namespace Layout

variable {disk : Disk} {spool : Spool} {log : Log}

theorem appendReserved (layout : Layout disk spool log)
    (room : spool.nextSeq < spool.reservedUntil) (event : Spool.Event) :
    ∃ front mid current before, Written disk spool log event front mid current before := by
  by_cases rotates : spool.needsRotation (encodeEntry (event.entry spool.nextSeq)).length = true
  · have opened := layout.rotate room
    rcases opened.written log event (if_pos rotates) rfl (if_pos rotates) with
      ⟨front, mid, before, written⟩
    exact ⟨front, mid, _, before, written⟩
  · rcases layout.keep room rotates with ⟨older, current, rfl, opened⟩
    have opened' : Opened (disk.applyAll []) spool older current := opened
    rcases opened'.written (older ++ [current]) event (if_neg rotates) rfl (if_neg rotates) with ⟨front, mid, before, written⟩
    exact ⟨front, mid, current, before, written⟩

theorem reserve (layout : Layout disk spool log) {ready : Spool}
    (fit : spool.reserveSequences.2 = some ready) :
    ready = { spool with reservedUntil := ready.reservedUntil } ∧
      ready.nextSeq < ready.reservedUntil ∧
      Layout (disk.applyAll spool.reserveSequences.1) ready log := by
  by_cases bound : spool.nextSeq + sequenceBlock < 2 ^ 64
  · rw [Spool.reserveSequences, if_pos bound] at fit
    cases fit
    have within : spool.nextSeq < spool.nextSeq + sequenceBlock :=
      Nat.lt_add_of_pos_right (by decide)
    rw [Spool.reserveSequences, if_pos bound]
    exact ⟨rfl, within, layout.ordered, layout.segments, layout.files, layout.writer,
      layout.total, Nat.le_of_lt within, bound⟩
  · rw [Spool.reserveSequences, if_neg bound] at fit
    cases fit

theorem append (layout : Layout disk spool log) (event : Spool.Event) :
    spool.append event = ([], none) ∨ ∃ reserving ready,
      spool.append event = (reserving ++ (ready.appendReserved event).1,
        some (ready.appendReserved event).2) ∧
      ready = { spool with reservedUntil := ready.reservedUntil } ∧
      ready.nextSeq < ready.reservedUntil ∧ Layout (disk.applyAll reserving) ready log ∧
      (disk.applyAll reserving).acked = disk.acked := by
  by_cases used : spool.reservedUntil ≤ spool.nextSeq
  · cases fit : spool.reserveSequences.2 with
    | none =>
        left
        have nothing : spool.reserveSequences.1 = [] := by
          rw [Spool.reserveSequences] at fit ⊢
          split at fit
          · cases fit
          · rw [if_neg ‹_›]
        simp only [Spool.append, if_pos used, fit, nothing]
    | some ready =>
        right
        rcases layout.reserve fit with ⟨same, room, ready'⟩
        refine ⟨spool.reserveSequences.1, ready, ?_, same, room, ready', ?_⟩
        · simp only [Spool.append, if_pos used, fit]
        · rw [Spool.reserveSequences]
          split
          · rfl
          · rfl
  · right
    refine ⟨[], spool, ?_, rfl, Nat.lt_of_not_le used, layout, rfl⟩
    rw [Spool.append, if_neg used, List.nil_append]

end Layout

end PiAgents.Spooling
