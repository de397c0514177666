import PiAgents.Spooling.Sequences
import PiAgents.Spooling.Pending

/-! What a process may leave in the directory, torn records included, and that opening the spool
over it restores the agreement of memory and files. -/

namespace PiAgents.Spooling

/-- The records of a segment file and what a stopped write has left behind them. -/
structure StoredFile where
  name : Nat
  entries : List Entry
  tail : List UInt8

namespace StoredFile

def bytes (f : StoredFile) : List UInt8 := encodeAll f.entries ++ f.tail

def file (f : StoredFile) : Nat × List UInt8 := (f.name, f.bytes)

structure Sound (f : StoredFile) : Prop where
  numbered : f.entries.map (·.seq) = List.range' f.name f.entries.length
  fits : ∀ entry ∈ f.entries, entry.Fits
  torn : readFrame f.tail = none

/-- What recovery leaves of the file. -/
def kept (f : StoredFile) : Option (Nat × List UInt8) :=
  if f.entries.isEmpty then none else some (f.name, encodeAll f.entries)

def pushAll (s : Segment) (entries : List Entry) : Segment :=
  entries.foldl (fun s entry => s.push entry.eventTimeMs 0) s

def segment (f : StoredFile) : Segment :=
  { pushAll (Segment.new f.name f.name) f.entries with bytes := (encodeAll f.entries).length }

def logged (f : StoredFile) : Option (Segment × List Entry) :=
  if f.entries.isEmpty then none else some (f.segment, f.entries)

end StoredFile

/-- The directory holds these files, in order, with numbers below that of the sequence file. -/
structure Recoverable (disk : Disk) (files : List StoredFile) : Prop where
  segments : disk.segments = files.map StoredFile.file
  sound : ∀ f ∈ files, f.Sound
  increasing : files.Pairwise fun a b => a.name < b.name ∧ a.name + a.entries.length ≤ b.name
  below : ∀ f ∈ files, f.name + f.entries.length ≤ Spool.readNumber disk.sequence

namespace Disk

variable {disk : Disk} {before after : List (Nat × List UInt8)} {name : Nat} {bytes : List UInt8}

private theorem edit_middle (segments : disk.segments = before ++ (name, bytes) :: after)
    (names : (before ++ (name, bytes) :: after).Pairwise fun a b => a.1 ≠ b.1)
    (change : List UInt8 → List UInt8) :
    (disk.edit name change).segments = before ++ (name, change bytes) :: after := by
  have parts := List.pairwise_append.mp names
  have first : ∀ file ∈ before, (if file.1 = name then (file.1, change file.2) else file) = file :=
    fun file member => if_neg (parts.2.2 file member _ List.mem_cons_self)
  have last : ∀ file ∈ after, (if file.1 = name then (file.1, change file.2) else file) = file :=
    fun file member => if_neg ((List.pairwise_cons.mp parts.2.1).1 file member).symm
  change disk.segments.map _ = _
  rw [segments, List.map_append, List.map_cons, if_pos rfl]
  congr 1
  · exact (List.map_congr_left first).trans (List.map_id _)
  · exact congrArg _ ((List.map_congr_left last).trans (List.map_id _))

private theorem remove_middle (segments : disk.segments = before ++ (name, bytes) :: after)
    (names : (before ++ (name, bytes) :: after).Pairwise fun a b => a.1 ≠ b.1) :
    (disk.apply (.removeSegment name)).segments = before ++ after := by
  have parts := List.pairwise_append.mp names
  have first : before.filter (·.1 ≠ name) = before := by
    apply List.filter_eq_self.mpr
    intro file member
    exact decide_eq_true (parts.2.2 file member _ List.mem_cons_self)
  have last : after.filter (·.1 ≠ name) = after := by
    apply List.filter_eq_self.mpr
    intro file member
    exact decide_eq_true ((List.pairwise_cons.mp parts.2.1).1 file member).symm
  rw [remove_segments, segments, List.filter_append, List.filter_cons, first, last]
  simp only [ne_eq, not_true_eq_false, decide_false, Bool.false_eq_true, if_false]

end Disk

/-- The effect replaces the file of the watermark. -/
def Effect.marks : Effect → Bool
  | .renameAckedTmp => true
  | _ => false

theorem acked_apply (disk : Disk) {effect : Effect} (quiet : effect.marks = false) :
    (disk.apply effect).acked = disk.acked := by
  cases effect with
  | renameAckedTmp => cases quiet
  | createSegment name =>
      by_cases exists' : disk.segments.any (·.1 == name) = true
      · simp only [Disk.apply, exists', if_true]
      · simp only [Disk.apply, exists']
        rfl
  | _ => rfl

theorem acked_applyAll (disk : Disk) {effects : List Effect}
    (quiet : ∀ effect ∈ effects, effect.marks = false) :
    (disk.applyAll effects).acked = disk.acked := by
  induction effects generalizing disk with
  | nil => rfl
  | cons effect rest ih =>
      have later := ih (disk.apply effect) fun other member =>
        quiet other (List.mem_cons_of_mem _ member)
      exact later.trans (acked_apply disk (quiet effect List.mem_cons_self))

theorem recovery_marks (files : List (Nat × List UInt8)) :
    ∀ effect ∈ files.flatMap Spool.recoveryEffects, effect.marks = false := by
  intro effect member
  rcases List.mem_flatMap.mp member with ⟨file, _, inEffects⟩
  unfold Spool.recoveryEffects at inEffects
  split at inEffects
  · rw [List.mem_singleton.mp inEffects]
    rfl
  · split at inEffects
    · rw [List.mem_singleton.mp inEffects]
      rfl
    · cases inEffects

theorem reservation_marks (blockEnd : Nat) :
    ∀ effect ∈ reservation blockEnd, effect.marks = false := by
  intro effect member
  simp only [reservation, List.mem_cons, List.not_mem_nil, or_false] at member
  rcases member with rfl | rfl | rfl
  · rfl
  · rfl
  · rfl

theorem reservation_segments (disk : Disk) (blockEnd : Nat) :
    (disk.applyAll (reservation blockEnd)).segments = disk.segments := rfl

namespace StoredFile

variable {f : StoredFile}

theorem Sound.read (sound : f.Sound) :
    readSegment f.bytes = (f.entries.map stored, (encodeAll f.entries).length) :=
  readSegment_encodeAll sound.fits sound.torn

theorem Sound.effects (sound : f.Sound) : Spool.recoveryEffects f.file =
    if f.entries.isEmpty then [.removeSegment f.name]
    else if (encodeAll f.entries).length < f.bytes.length then
      [.truncateSegment f.name (encodeAll f.entries).length]
    else [] := by
  have read : readSegment f.file.2 = (f.entries.map stored, (encodeAll f.entries).length) :=
    sound.read
  rw [Spool.recoveryEffects, read, List.isEmpty_map]
  rfl

theorem Sound.recovers (sound : f.Sound) {disk : Disk} {before after : List (Nat × List UInt8)}
    (segments : disk.segments = before ++ f.file :: after)
    (names : (before ++ f.file :: after).Pairwise fun a b => a.1 ≠ b.1) :
    (disk.applyAll (Spool.recoveryEffects f.file)).segments =
      before ++ f.kept.toList ++ after := by
  rw [sound.effects]
  by_cases empty : f.entries.isEmpty = true
  · rw [if_pos empty, kept, if_pos empty, Option.toList_none, List.append_nil]
    exact Disk.remove_middle segments names
  · rw [if_neg empty, kept, if_neg empty, Option.toList_some]
    have total : f.bytes.length = (encodeAll f.entries).length + f.tail.length :=
      List.length_append
    by_cases cut : (encodeAll f.entries).length < f.bytes.length
    · rw [if_pos cut]
      have edited := Disk.edit_middle segments names (·.take (encodeAll f.entries).length)
      have records : f.bytes.take (encodeAll f.entries).length = encodeAll f.entries :=
        List.take_left
      rw [records] at edited
      exact edited.trans (List.append_cons ..)
    · rw [if_neg cut]
      have whole : f.tail = [] := by
        apply List.length_eq_zero_iff.mp
        omega
      have same : f.file = (f.name, encodeAll f.entries) := by
        rw [file, bytes, whole, List.append_nil]
      rw [same] at segments
      exact segments.trans (List.append_cons ..)

theorem kept_name {file : Nat × List UInt8} (kept : f.kept = some file) : file.1 = f.name := by
  unfold StoredFile.kept at kept
  split at kept
  · cases kept
  · cases kept
    rfl

theorem recovered_files {files : List StoredFile} (sound : ∀ f ∈ files, f.Sound) {disk : Disk}
    {before : List (Nat × List UInt8)} (segments : disk.segments = before ++ files.map file)
    (names : (before ++ files.map file).Pairwise fun a b => a.1 ≠ b.1) :
    (disk.applyAll ((files.map file).flatMap Spool.recoveryEffects)).segments =
      before ++ files.filterMap kept := by
  induction files generalizing disk before with
  | nil => exact segments
  | cons f rest ih =>
      have first := (sound f List.mem_cons_self).recovers segments names
      have others : ∀ other ∈ rest, other.Sound :=
        fun other member => sound other (List.mem_cons_of_mem _ member)
      have apart : (before ++ f.kept.toList ++ rest.map file).Pairwise fun a b => a.1 ≠ b.1 := by
        cases left : f.kept with
        | none =>
            rw [Option.toList_none, List.append_nil]
            exact names.sublist ((List.sublist_cons_self _ _).append_left before)
        | some file =>
            have named := kept_name left
            rw [Option.toList_some, List.append_assoc, List.singleton_append]
            have parts := List.pairwise_append.mp names
            apply List.pairwise_append.mpr
            refine ⟨parts.1, ?_, ?_⟩
            · have tail := List.pairwise_cons.mp parts.2.1
              refine List.pairwise_cons.mpr ⟨?_, tail.2⟩
              intro other member
              rw [named]
              exact tail.1 other member
            · intro earlier member other later
              rcases List.mem_cons.mp later with rfl | inRest
              · rw [named]
                exact parts.2.2 earlier member f.file List.mem_cons_self
              · exact parts.2.2 earlier member other (List.mem_cons_of_mem _ inRest)
      have later := ih others first apart
      rw [List.map_cons, List.flatMap_cons, Disk.applyAll_append, later, List.append_assoc]
      cases left : f.kept with
      | none =>
          rw [List.filterMap_cons_none left, Option.toList_none, List.nil_append]
      | some file =>
          rw [List.filterMap_cons_some left, Option.toList_some, List.singleton_append]

/-- A segment after its records were counted. -/
structure Filled (name : Nat) (entries : List Entry) (s : Segment) : Prop where
  path : s.path = name
  firstSeq : s.firstSeq = name
  count : s.count = entries.length
  sound : s.Sound
  unackedSeqs : s.unackedSeqs = List.range' name entries.length
  times : ∀ entry ∈ entries, s.minTime ≤ entry.eventTimeMs ∧ entry.eventTimeMs ≤ s.maxTime

theorem filled_pushAll (name : Nat) (entries : List Entry) :
    Filled name entries (pushAll (Segment.new name name) entries) := by
  induction entries using List.reverseRecOn with
  | nil =>
      exact ⟨rfl, rfl, rfl, Segment.sound_new name name, rfl,
        fun entry member => absurd member List.not_mem_nil⟩
  | append_singleton front last ih =>
      have step : pushAll (Segment.new name name) (front ++ [last]) =
          (pushAll (Segment.new name name) front).push last.eventTimeMs 0 := List.foldl_concat ..
      rw [step]
      constructor
      · exact ih.path
      · exact ih.firstSeq
      · rw [Segment.push_count, ih.count, List.length_append, List.length_singleton]
      · exact ih.sound.push _ _
      · rw [Segment.unackedSeqs_push ih.sound, ih.unackedSeqs, ih.firstSeq, ih.count,
          List.length_append, List.length_singleton, List.range'_concat, Nat.one_mul]
      · intro entry member
        rcases List.mem_append.mp member with old | new
        · have within := ih.times entry old
          exact ⟨Int64.le_trans Std.min_le_left within.1,
            Int64.le_trans within.2 (time_le_max_left _ _)⟩
        · rw [List.mem_singleton.mp new]
          exact ⟨Std.min_le_right, time_le_max_right _ _⟩

theorem pushAll_stored (s : Segment) (entries : List Entry) :
    (entries.map stored).foldl (fun s entry => s.push entry.eventTimeMs 0) s =
      pushAll s entries := by
  rw [List.foldl_map]
  rfl

theorem Sound.first_seq (sound : f.Sound) {first : Entry} {rest : List Entry}
    (parts : f.entries = first :: rest) : first.seq = f.name := by
  have numbered := sound.numbered
  rw [parts, List.length_cons, List.range'_succ, List.map_cons] at numbered
  exact (List.cons.inj numbered).1

theorem Sound.recoveredSegment (sound : f.Sound) :
    Spool.recoveredSegment f.file = f.logged.map Prod.fst := by
  have read : readSegment f.file.2 = (f.entries.map stored, (encodeAll f.entries).length) :=
    sound.read
  rw [Spool.recoveredSegment, read]
  cases parts : f.entries with
  | nil =>
      have none' : f.logged = none := by
        rw [logged, parts]
        rfl
      rw [none']
      rfl
  | cons first rest =>
      have some' : f.logged = some (f.segment, f.entries) := by
        rw [logged, parts]
        rfl
      have named : (stored first).seq = f.name :=
        (show (stored first).seq = first.seq from rfl).trans (sound.first_seq parts)
      rw [some', List.map_cons, List.head?_cons, Option.map_some, named, ← List.map_cons, ← parts,
        pushAll_stored]
      rfl

theorem Sound.holds (sound : f.Sound) : Holds f.segment f.entries := by
  have filled := filled_pushAll f.name f.entries
  constructor
  · exact filled.path.trans filled.firstSeq.symm
  · have seqs : f.segment.seqs = List.range' f.name f.entries.length := by
      change List.range' (pushAll _ _).firstSeq (pushAll _ _).count = _
      rw [filled.firstSeq, filled.count]
    rw [seqs, sound.numbered]
  · exact ⟨filled.sound.bits, filled.sound.unacked⟩
  · rfl
  · exact filled.times

end StoredFile

/-- A segment after records were marked as delivered. -/
structure Marked (s : Segment) (delivered : List Nat) (t : Segment) : Prop where
  path : t.path = s.path
  firstSeq : t.firstSeq = s.firstSeq
  count : t.count = s.count
  bytes : t.bytes = s.bytes
  minTime : t.minTime = s.minTime
  maxTime : t.maxTime = s.maxTime
  sound : t.Sound
  unackedSeqs : ∀ seq, seq ∈ t.unackedSeqs ↔ seq ∈ s.unackedSeqs ∧ seq ∉ delivered

theorem marked_setAcked {delivered : List Nat} {s : Segment} (sound : s.Sound)
    (held : ∀ seq ∈ delivered, s.contains seq = true) :
    Marked s delivered (delivered.foldl Segment.setAcked s) := by
  induction delivered generalizing s with
  | nil =>
      refine ⟨rfl, rfl, rfl, rfl, rfl, rfl, sound, ?_⟩
      intro seq
      exact (and_iff_left List.not_mem_nil).symm
  | cons first rest ih =>
      have inside := held first List.mem_cons_self
      have others : ∀ seq ∈ rest, (s.setAcked first).contains seq = true :=
        fun seq member => held seq (List.mem_cons_of_mem _ member)
      have later := ih (sound.setAcked inside) others
      refine ⟨later.path, later.firstSeq, later.count, later.bytes, later.minTime, later.maxTime,
        later.sound, ?_⟩
      intro seq
      rw [List.foldl_cons, later.unackedSeqs, Segment.unackedSeqs_setAcked sound inside,
        s.unackedSeqs_nodup.mem_erase_iff, List.mem_cons, not_or]
      constructor
      · rintro ⟨⟨apart, member⟩, unmarked⟩
        exact ⟨member, apart, unmarked⟩
      · rintro ⟨member, apart, unmarked⟩
        exact ⟨⟨apart, member⟩, unmarked⟩

theorem marked_delivered (watermark : Nat) {s : Segment} (sound : s.Sound) :
    Marked s (s.seqs.filter (· < watermark)) (Spool.markDelivered watermark s) := by
  apply marked_setAcked sound
  intro seq member
  exact (s.mem_seqs seq).mp (List.mem_filter.mp member).1

theorem unacked_markDelivered (watermark : Nat) {s : Segment} (sound : s.Sound) (seq : Nat) :
    seq ∈ (Spool.markDelivered watermark s).unackedSeqs ↔
      seq ∈ s.unackedSeqs ∧ watermark ≤ seq := by
  rw [(marked_delivered watermark sound).unackedSeqs, List.mem_filter, decide_eq_true_eq]
  constructor
  · rintro ⟨member, unmarked⟩
    have held := (s.mem_seqs seq).mpr ((s.mem_unackedSeqs seq).mp member).1
    exact ⟨member, Nat.le_of_not_lt fun below => unmarked ⟨held, below⟩⟩
  · rintro ⟨member, above⟩
    exact ⟨member, fun marked => Nat.not_lt_of_le above marked.2⟩

/-- The log of the files that hold records. -/
def recoveredLog (files : List StoredFile) : Log := files.filterMap StoredFile.logged

theorem mem_recoveredLog {files : List StoredFile} {kept : Segment × List Entry} :
    kept ∈ recoveredLog files ↔
      ∃ f ∈ files, f.entries ≠ [] ∧ kept = (f.segment, f.entries) := by
  unfold recoveredLog
  rw [List.mem_filterMap]
  apply exists_congr
  intro f
  apply and_congr_right
  intro _
  unfold StoredFile.logged
  by_cases empty : f.entries.isEmpty = true
  · rw [if_pos empty]
    have none' := List.isEmpty_iff.mp empty
    exact iff_of_false (Option.some_ne_none _).symm fun both => both.1 none'
  · rw [if_neg empty, Option.some.injEq, eq_comm]
    have filled : f.entries ≠ [] := fun none' => empty (List.isEmpty_iff.mpr none')
    exact (and_iff_right filled).symm

theorem recoveredLog_files (files : List StoredFile) :
    (recoveredLog files).files = files.filterMap StoredFile.kept := by
  unfold recoveredLog Log.files
  rw [List.map_filterMap]
  apply List.filterMap_congr
  intro f _
  have path : f.segment.path = f.name := (StoredFile.filled_pushAll f.name f.entries).path
  unfold StoredFile.logged StoredFile.kept
  split
  · rfl
  · rw [Option.map_some, path]

theorem Disk.sorted_of_increasing (disk : Disk)
    (increasing : disk.segments.Pairwise fun a b => a.1 ≤ b.1) : disk.sorted = disk.segments := by
  apply List.mergeSort_of_pairwise
  exact increasing.imp fun order => decide_eq_true order

namespace Recoverable

variable {disk : Disk} {files : List StoredFile}

theorem names (recoverable : Recoverable disk files) :
    (files.map StoredFile.file).Pairwise fun a b => a.1 ≠ b.1 :=
  List.pairwise_map.mpr (recoverable.increasing.imp fun order => Nat.ne_of_lt order.1)

theorem sorted (recoverable : Recoverable disk files) :
    disk.sorted = files.map StoredFile.file := by
  have increasing : disk.segments.Pairwise fun a b => a.1 ≤ b.1 := by
    rw [recoverable.segments]
    exact List.pairwise_map.mpr (recoverable.increasing.imp fun order => Nat.le_of_lt order.1)
  rw [disk.sorted_of_increasing increasing, recoverable.segments]

theorem recoveredSegments (recoverable : Recoverable disk files) :
    disk.sorted.filterMap Spool.recoveredSegment = (recoveredLog files).segments := by
  rw [recoverable.sorted, List.filterMap_map, Log.segments, recoveredLog, List.map_filterMap]
  apply List.filterMap_congr
  intro f member
  exact (recoverable.sound f member).recoveredSegment

theorem ordered (recoverable : Recoverable disk files) {nextSeq : Nat}
    (reached : Spool.readNumber disk.sequence ≤ nextSeq) :
    (recoveredLog files).Ordered nextSeq := by
  have filled : ∀ f : StoredFile, f.segment.firstSeq = f.name ∧
      f.segment.count = f.entries.length := by
    intro f
    have counted := StoredFile.filled_pushAll f.name f.entries
    exact ⟨counted.firstSeq, counted.count⟩
  constructor
  · intro kept member
    rcases mem_recoveredLog.mp member with ⟨f, inFiles, _, rfl⟩
    exact (recoverable.sound f inFiles).holds
  · intro kept member
    rcases mem_recoveredLog.mp member with ⟨f, _, records, rfl⟩
    change 0 < f.segment.count
    rw [(filled f).2]
    exact List.length_pos_iff.mpr records
  · apply List.pairwise_filterMap.mpr
    apply recoverable.increasing.imp
    intro first second order kept isFirst other isSecond
    unfold StoredFile.logged at isFirst isSecond
    split at isFirst
    · cases isFirst
    · split at isSecond
      · cases isSecond
      · cases isFirst
        cases isSecond
        change first.segment.firstSeq + first.segment.count ≤ second.segment.firstSeq
        rw [(filled first).1, (filled first).2, (filled second).1]
        exact order.2
  · intro kept member
    rcases mem_recoveredLog.mp member with ⟨f, inFiles, _, rfl⟩
    change f.segment.firstSeq + f.segment.count ≤ nextSeq
    rw [(filled f).1, (filled f).2]
    exact Nat.le_trans (recoverable.below f inFiles) reached

/-- The log that opening leaves before it drops what is delivered at the front. -/
def markedLog (files : List StoredFile) (watermark : Nat) : Log :=
  (recoveredLog files).map fun kept => (Spool.markDelivered watermark kept.1, kept.2)

theorem marked_files (files : List StoredFile) (watermark : Nat)
    (sound : ∀ kept ∈ recoveredLog files, kept.1.Sound) :
    (markedLog files watermark).files = (recoveredLog files).files := by
  rw [Log.files, markedLog, List.map_map]
  apply List.map_congr_left
  intro kept member
  exact congrArg (·, encodeAll kept.2) (marked_delivered watermark (sound kept member)).path

theorem marked_bytes (files : List StoredFile) (watermark : Nat)
    (sound : ∀ kept ∈ recoveredLog files, kept.1.Sound) :
    Spool.bytesOf (markedLog files watermark).segments =
      Spool.bytesOf (recoveredLog files).segments := by
  rw [Spool.bytesOf, Spool.bytesOf, Log.segments, Log.segments, markedLog, List.map_map,
    List.map_map, List.map_map]
  congr 1
  apply List.map_congr_left
  intro kept member
  exact (marked_delivered watermark (sound kept member)).bytes

theorem ordered_marked (recoverable : Recoverable disk files) {nextSeq : Nat}
    (reached : Spool.readNumber disk.sequence ≤ nextSeq) (watermark : Nat) :
    (markedLog files watermark).Ordered nextSeq := by
  have ordered := recoverable.ordered reached
  apply ordered.map (Spool.markDelivered watermark)
  intro kept member
  have marked := marked_delivered watermark (ordered.holds kept member).sound
  exact ⟨marked.path, marked.firstSeq, marked.count, marked.bytes, marked.minTime, marked.maxTime,
    marked.sound⟩

/-- Opening over recoverable files: before the delivered front is dropped, memory and files agree
on the marked log. -/
theorem open_marked (recoverable : Recoverable disk files) {config : SpoolConfig} {spool : Spool}
    (opened : (Spool.open config disk).2 = some spool) :
    ∃ before marked, (Spool.open config disk).1 = before ++ marked.dropAckedFront.1 ∧
      spool = marked.dropAckedFront.2 ∧ marked.config = config ∧ marked.writer = none ∧
      2 * config.segmentBytes ≤ config.maxBytes ∧
      (disk.applyAll before).acked = disk.acked ∧
      Layout (disk.applyAll before) marked
        (markedLog files (Spool.readNumber disk.acked)) := by
  let nextSeq := max (Spool.readNumber disk.sequence)
    (((Spool.maxSeq disk.sorted).map (· + 1)).getD 0)
  have reached : Spool.readNumber disk.sequence ≤ nextSeq := Nat.le_max_left _ _
  have ordered := recoverable.ordered reached
  have sounds : ∀ kept ∈ recoveredLog files, kept.1.Sound :=
    fun kept member => (ordered.holds kept member).sound
  by_cases small : config.maxBytes < 2 * config.segmentBytes
  · rw [Spool.open, if_pos small] at opened
    cases opened
  · by_cases fits : nextSeq + sequenceBlock < 2 ^ 64
    · let recovery := disk.sorted.flatMap Spool.recoveryEffects
      let log := markedLog files (Spool.readNumber disk.acked)
      let marked : Spool := ⟨config, log.segments, none, nextSeq, nextSeq + sequenceBlock,
        Spool.bytesOf (recoveredLog files).segments⟩
      have segments : (recoveredLog files).segments.map
          (Spool.markDelivered (Spool.readNumber disk.acked)) = log.segments := by
        simp only [log, Log.segments, markedLog, List.map_map]
        rfl
      have whole : Spool.open config disk =
          (recovery ++ reservation (nextSeq + sequenceBlock) ++ marked.dropAckedFront.1,
            some marked.dropAckedFront.2) := by
        simp only [Spool.open, small, if_false, Spool.reserveSequences]
        rw [if_pos fits]
        simp only [recoverable.recoveredSegments, segments]
        rfl
      have files' : (disk.applyAll recovery).segments = log.files := by
        have recovered : (disk.applyAll ((files.map StoredFile.file).flatMap
            Spool.recoveryEffects)).segments = [] ++ files.filterMap StoredFile.kept :=
          StoredFile.recovered_files recoverable.sound recoverable.segments recoverable.names
        rw [marked_files _ _ sounds, recoveredLog_files]
        simp only [recovery, recoverable.sorted]
        exact recovered
      refine ⟨recovery ++ reservation (nextSeq + sequenceBlock), marked, ?_, ?_, rfl, rfl,
        Nat.le_of_not_lt small, ?_, ?_⟩
      · rw [whole]
      · rw [whole] at opened
        exact (Option.some.inj opened).symm
      · apply acked_applyAll
        intro effect member
        rcases List.mem_append.mp member with first | second
        · exact recovery_marks _ effect first
        · exact reservation_marks _ effect second
      · constructor
        · exact recoverable.ordered_marked reached _
        · rfl
        · rw [Disk.applyAll_append, reservation_segments]
          exact files'
        · intro name isWriter
          cases isWriter
        · exact (marked_bytes _ _ sounds).symm
        · exact Nat.le_add_right _ _
        · exact fits
    · have refused : (Spool.open config disk).2 = none := by
        simp only [Spool.open, small, if_false, Spool.reserveSequences]
        rw [if_neg fits]
      rw [refused] at opened
      cases opened

theorem mem_markedLog (recoverable : Recoverable disk files) {watermark seq : Nat} :
    seq ∈ (markedLog files watermark).unackedSeqs ↔
      watermark ≤ seq ∧ ∃ f ∈ files, ∃ entry ∈ f.entries, entry.seq = seq := by
  have ordered := recoverable.ordered (Nat.le_refl _)
  have held : ∀ f ∈ files, seq ∈ f.segment.unackedSeqs ↔ ∃ entry ∈ f.entries, entry.seq = seq := by
    intro f member
    have counted : f.segment.unackedSeqs = List.range' f.name f.entries.length :=
      (StoredFile.filled_pushAll f.name f.entries).unackedSeqs
    rw [counted, ← (recoverable.sound f member).numbered]
    exact List.mem_map
  rw [Log.mem_unackedSeqs]
  constructor
  · rintro ⟨kept, member, unacked⟩
    rcases List.mem_map.mp member with ⟨before, inLog, rfl⟩
    have parts := (unacked_markDelivered watermark (ordered.holds before inLog).sound seq).mp unacked
    rcases mem_recoveredLog.mp inLog with ⟨f, inFiles, _, rfl⟩
    exact ⟨parts.2, f, inFiles, (held f inFiles).mp parts.1⟩
  · rintro ⟨above, f, inFiles, entry, inEntries, isSeq⟩
    have inLog : (f.segment, f.entries) ∈ recoveredLog files :=
      mem_recoveredLog.mpr ⟨f, inFiles, List.ne_nil_of_mem inEntries, rfl⟩
    have here := (held f inFiles).mpr ⟨entry, inEntries, isSeq⟩
    exact ⟨_, List.mem_map_of_mem inLog,
      (unacked_markDelivered watermark (ordered.holds _ inLog).sound seq).mpr ⟨here, above⟩⟩

theorem markedLog_entries {watermark : Nat} {kept : Segment × List Entry}
    (member : kept ∈ markedLog files watermark) : ∃ f ∈ files, kept.2 = f.entries := by
  rcases List.mem_map.mp member with ⟨recovered, inLog, rfl⟩
  rcases mem_recoveredLog.mp inLog with ⟨f, inFiles, _, rfl⟩
  exact ⟨f, inFiles, rfl⟩

/-- Opening over recoverable files gives a log of their records, of which those from the watermark
on are not acknowledged. -/
theorem open_layout (recoverable : Recoverable disk files) {config : SpoolConfig} {spool : Spool}
    (opened : (Spool.open config disk).2 = some spool) :
    ∃ front log : Log, Layout (disk.applyAll (Spool.open config disk).1) spool log ∧
      markedLog files (Spool.readNumber disk.acked) = front ++ log ∧
      (∀ seq, seq ∈ log.unackedSeqs ↔ Spool.readNumber disk.acked ≤ seq ∧
        ∃ f ∈ files, ∃ entry ∈ f.entries, entry.seq = seq) ∧
      (disk.applyAll (Spool.open config disk).1).acked = disk.acked ∧
      spool.config = config ∧ 2 * config.segmentBytes ≤ config.maxBytes := by
  rcases recoverable.open_marked opened with
    ⟨before, marked, effects, rfl, isConfig, _, room, acked, layout⟩
  rcases layout.dropAckedFront_unackedSeqs with ⟨front, rest, parts, unackedSeqs, dropped⟩
  rw [effects, Disk.applyAll_append]
  refine ⟨front, rest, dropped, parts, ?_, ?_, isConfig, room⟩
  · intro seq
    rw [unackedSeqs]
    exact recoverable.mem_markedLog
  · rw [← acked]
    apply acked_applyAll
    intro effect member
    rcases List.mem_map.mp member with ⟨segment, _, rfl⟩
    rfl

/-- The files with their records alone. -/
def cleaned (files : List StoredFile) : List StoredFile :=
  files.filterMap fun f => if f.entries.isEmpty then none else some { f with tail := [] }

theorem kept_eq_cleaned (files : List StoredFile) :
    files.filterMap StoredFile.kept = (cleaned files).map StoredFile.file := by
  unfold cleaned
  rw [List.map_filterMap]
  apply List.filterMap_congr
  intro f _
  unfold StoredFile.kept
  split
  · rfl
  · rw [Option.map_some, StoredFile.file, StoredFile.bytes, List.append_nil]

theorem mem_cleaned {files : List StoredFile} {f : StoredFile} (member : f ∈ cleaned files) :
    ∃ before ∈ files, f = { before with tail := [] } := by
  rcases List.mem_filterMap.mp member with ⟨before, inFiles, cut⟩
  refine ⟨before, inFiles, ?_⟩
  split at cut
  · cases cut
  · exact (Option.some.inj cut).symm

theorem clean (recoverable : Recoverable disk files) :
    Recoverable (disk.applyAll (disk.sorted.flatMap Spool.recoveryEffects)) (cleaned files) := by
  have recovered : (disk.applyAll ((files.map StoredFile.file).flatMap
      Spool.recoveryEffects)).segments = [] ++ files.filterMap StoredFile.kept :=
    StoredFile.recovered_files recoverable.sound recoverable.segments recoverable.names
  have sequence : (disk.applyAll (disk.sorted.flatMap Spool.recoveryEffects)).sequence =
      disk.sequence := by
    have numbers := numbers_applyAll disk (disk.sorted.flatMap Spool.recoveryEffects)
    rw [recovery_quiet] at numbers
    exact congrArg Prod.fst numbers
  constructor
  · rw [recoverable.sorted, recovered, List.nil_append, kept_eq_cleaned]
  · intro f member
    rcases mem_cleaned member with ⟨before, inFiles, rfl⟩
    have sound := recoverable.sound before inFiles
    exact ⟨sound.numbered, sound.fits, readFrame_nil⟩
  · apply List.pairwise_filterMap.mpr
    apply recoverable.increasing.imp
    intro first second order one isFirst two isSecond
    split at isFirst
    · cases isFirst
    · split at isSecond
      · cases isSecond
      · cases isFirst
        cases isSecond
        exact order
  · intro f member
    rcases mem_cleaned member with ⟨before, inFiles, rfl⟩
    rw [sequence]
    exact recoverable.below before inFiles

end Recoverable

theorem recoverable_empty : Recoverable .empty [] :=
  ⟨rfl, fun _ member => absurd member List.not_mem_nil, .nil,
    fun _ member => absurd member List.not_mem_nil⟩

theorem open_refused {disk : Disk} {config : SpoolConfig}
    (refused : (Spool.open config disk).2 = none) :
    (Spool.open config disk).1 = [] ∨
      (Spool.open config disk).1 = disk.sorted.flatMap Spool.recoveryEffects := by
  by_cases small : config.maxBytes < 2 * config.segmentBytes
  · left
    rw [Spool.open, if_pos small]
  · right
    by_cases fits : max (Spool.readNumber disk.sequence)
        (((Spool.maxSeq disk.sorted).map (· + 1)).getD 0) + sequenceBlock < 2 ^ 64
    · simp only [Spool.open, small, if_false, Spool.reserveSequences] at refused
      rw [if_pos fits] at refused
      cases refused
    · simp only [Spool.open, small, if_false, Spool.reserveSequences]
      rw [if_neg fits]

end PiAgents.Spooling
