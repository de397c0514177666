import PiAgents.Spooling.Appending

/-! What a process leaves behind that dies between two calls or while it writes a record, and which
numbers the next one finds. -/

namespace PiAgents.Spooling

/-- A file holds a record of this number. -/
def Stored (files : List StoredFile) (seq : Nat) : Prop :=
  ∃ f ∈ files, ∃ entry ∈ f.entries, entry.seq = seq

namespace Spool

variable (spool : Spool) (event : Event)

theorem appendReserved_marks : ∀ effect ∈ (spool.appendReserved event).1, effect.marks = false := by
  have removed : ∀ segments : List Segment, ∀ effect ∈ removals segments,
      effect.marks = false := by
    intro segments effect member
    rcases List.mem_map.mp member with ⟨segment, _, rfl⟩
    rfl
  have written : ∀ writer : Option Nat, ∀ effect ∈ writer.toList.map fun name =>
      Effect.appendSegment name (encodeEntry (event.entry spool.nextSeq)),
      effect.marks = false := by
    intro writer effect member
    rcases List.mem_map.mp member with ⟨name, _, rfl⟩
    rfl
  intro effect member
  unfold appendReserved at member
  rcases List.mem_append.mp member with before | record
  · rcases List.mem_append.mp before with rotated | limited
    · split at rotated
      · rw [List.mem_singleton.mp rotated]
        rfl
      · cases rotated
    · exact removed _ effect limited
  · exact written _ effect record

theorem append_marks : ∀ effect ∈ (spool.append event).1, effect.marks = false := by
  by_cases used : spool.reservedUntil ≤ spool.nextSeq
  · by_cases fits : spool.nextSeq + sequenceBlock < 2 ^ 64
    · simp only [append, used, if_true, reserveSequences, fits]
      intro effect member
      rcases List.mem_append.mp member with reserved | written
      · exact reservation_marks _ effect reserved
      · exact appendReserved_marks _ event effect written
    · simp only [append, used, if_true, reserveSequences, fits, if_false]
      intro effect member
      cases member
  · simp only [append, used, if_false]
    exact appendReserved_marks spool event

theorem ack_marks (seq : Nat) : ∀ effect ∈ (spool.ack seq).1, effect.marks = false := by
  unfold ack
  split
  · intro effect member
    rcases List.mem_map.mp member with ⟨segment, _, rfl⟩
    rfl
  · intro effect member
    cases member

end Spool

theorem Spool.makesRoom_reserved (spool : Spool) (event : Spool.Event) (blockEnd : Nat) :
    Spool.makesRoom { spool with reservedUntil := blockEnd } event = spool.makesRoom event := by
  by_cases rotates : spool.needsRotation (encodeEntry (event.entry spool.nextSeq)).length = true
  · have same : Spool.needsRotation { spool with reservedUntil := blockEnd }
        (encodeEntry (event.entry spool.nextSeq)).length = true := rotates
    simp only [makesRoom, rotates, same, if_true, rotate]
  · have same : ¬ Spool.needsRotation { spool with reservedUntil := blockEnd }
        (encodeEntry (event.entry spool.nextSeq)).length = true := rotates
    simp only [makesRoom, if_neg rotates, if_neg same]

/-- A crash at a record leaves a part of it behind what was done before. -/
private theorem cut_record (before : List Effect) (name : Nat) (record : List UInt8) (torn : Nat) :
    Machine.cut (before ++ [.appendSegment name record])
      ((before ++ [Effect.appendSegment name record]).length - 1) torn =
      before ++ [.appendSegment name (record.take torn)] := by
  have length : (before ++ [Effect.appendSegment name record]).length - 1 = before.length := by
    rw [List.length_append, List.length_singleton, Nat.add_sub_cancel]
  rw [Machine.cut, length, List.take_left, List.getElem?_concat_length]
  rfl

theorem cut_marks {effects : List Effect} (quiet : ∀ effect ∈ effects, effect.marks = false)
    (completed torn : Nat) : ∀ effect ∈ Machine.cut effects completed torn, effect.marks = false := by
  intro effect member
  rcases List.mem_append.mp member with done | part
  · exact quiet effect (List.mem_of_mem_take done)
  · cases found : effects[completed]? with
    | none =>
        rw [found] at part
        cases part
    | some last =>
        rw [found] at part
        cases last with
        | appendSegment name bytes =>
            rw [List.mem_singleton.mp part]
            rfl
        | _ => cases part

namespace Agrees

variable {disk : Disk} {spool : Spool} {log : Log}

theorem stops (agrees : Agrees disk spool log) : ∃ files, Recoverable disk files ∧
    ∀ seq, Stored files seq ↔ spool.contains seq = true := by
  refine ⟨_, agrees.recoverable, ?_⟩
  intro seq
  rw [Spool.contains, agrees.segments]
  constructor
  · rintro ⟨f, inFiles, entry, inEntries, rfl⟩
    rcases List.mem_map.mp inFiles with ⟨kept, inLog, rfl⟩
    exact List.any_eq_true.mpr ⟨kept.1, List.mem_map_of_mem inLog,
      agrees.toLayout.entry_contained inLog inEntries⟩
  · intro held
    rcases List.any_eq_true.mp held with ⟨segment, member, contains⟩
    rcases List.mem_map.mp member with ⟨kept, inLog, rfl⟩
    have inSeqs := (kept.1.mem_seqs seq).mpr contains
    rw [← (agrees.ordered.holds kept inLog).numbered] at inSeqs
    rcases List.mem_map.mp inSeqs with ⟨entry, inEntries, number⟩
    exact ⟨_, List.mem_map_of_mem inLog, entry, inEntries, number⟩

theorem stored_recovered (agrees : Agrees disk spool log) {files : List StoredFile}
    {watermark : Nat} {front : Log} (parts : Recoverable.markedLog files watermark = front ++ log)
    {seq : Nat} (held : spool.contains seq = true) : Stored files seq := by
  rw [Spool.contains, agrees.segments] at held
  rcases List.any_eq_true.mp held with ⟨segment, member, contains⟩
  rcases List.mem_map.mp member with ⟨kept, inLog, rfl⟩
  have inMarked : kept ∈ Recoverable.markedLog files watermark := by
    rw [parts]
    exact List.mem_append_right _ inLog
  rcases Recoverable.markedLog_entries inMarked with ⟨f, inFiles, same⟩
  have inSeqs := (kept.1.mem_seqs seq).mpr contains
  rw [← (agrees.ordered.holds kept inLog).numbered, same] at inSeqs
  rcases List.mem_map.mp inSeqs with ⟨entry, inEntries, number⟩
  exact ⟨f, inFiles, entry, inEntries, number⟩

end Agrees

theorem Recoverable.stored_cleaned {files : List StoredFile} {seq : Nat} :
    Stored (Recoverable.cleaned files) seq ↔ Stored files seq := by
  constructor
  · rintro ⟨f, inCleaned, entry, inEntries, number⟩
    rcases Recoverable.mem_cleaned inCleaned with ⟨before, inFiles, rfl⟩
    exact ⟨before, inFiles, entry, inEntries, number⟩
  · rintro ⟨f, inFiles, entry, inEntries, number⟩
    have filled : ¬ f.entries.isEmpty = true := by
      intro empty
      rw [List.isEmpty_iff.mp empty] at inEntries
      cases inEntries
    refine ⟨{ f with tail := [] }, ?_, entry, inEntries, number⟩
    exact List.mem_filterMap.mpr ⟨f, inFiles, if_neg filled⟩

theorem Layout.makesRoom_unacked {disk : Disk} {spool : Spool} {log : Log}
    (layout : Layout disk spool log) {event : Spool.Event} {s : Segment}
    (inRoom : s ∈ spool.makesRoom event) : s.unacked = s.unackedSeqs.length := by
  have ofSpool : s ∈ spool.segments → s.unacked = s.unackedSeqs.length := by
    intro member
    rw [layout.segments] at member
    rcases List.mem_map.mp member with ⟨kept, inLog, rfl⟩
    exact (layout.ordered.holds kept inLog).sound.unacked
  let record := encodeEntry (event.entry spool.nextSeq)
  let active := if spool.needsRotation record.length then (spool.rotate spool.nextSeq).2 else spool
  have split := Spool.overLimit_split spool.config.maxBytes record.length spool.totalBytes
    active.segments
  have inActive : s ∈ active.segments :=
    (congrArg (s ∈ ·) split).mp (List.mem_append_left _ inRoom)
  simp only [active] at inActive
  split at inActive
  · rcases List.mem_append.mp inActive with member | new
    · exact ofSpool member
    · rw [List.mem_singleton.mp new]
      rfl
  · exact ofSpool inActive

/-- The files after the death of a process that was writing to the last one. -/
def tornFiles (mid : Log) (current : Segment × List Entry) (part : List UInt8) : List StoredFile :=
  mid.map (fun kept => ⟨kept.1.firstSeq, kept.2, []⟩) ++ [⟨current.1.firstSeq, current.2, part⟩]

section Torn

variable {disk : Disk} {spool : Spool} {log front mid : Log} {event : Spool.Event}
  {current : Segment × List Entry} {before : List Effect}
  (written : Written disk spool log event front mid current before)

include written

theorem Written.names : (Log.files (mid ++ [current])).Pairwise fun a b => a.1 ≠ b.1 := by
  have parts : Log.files (mid ++ [current]) = mid.files ++ [(current.1.path, encodeAll current.2)] :=
    List.map_append
  rw [parts]
  apply List.pairwise_append.mpr
  refine ⟨written.closed.names, List.pairwise_singleton _ _, ?_⟩
  intro file member last single
  rcases List.mem_map.mp member with ⟨kept, inMid, rfl⟩
  rw [List.mem_singleton.mp single]
  have filled := written.closed.nonempty kept inMid
  have below := written.closed.below kept inMid
  have path := (written.closed.holds kept inMid).path
  have last := written.holds.path
  change kept.1.path ≠ current.1.path
  omega

theorem Written.tornFiles_segments (part : List UInt8) :
    ((disk.applyAll before).apply (.appendSegment current.1.path part)).segments =
      (tornFiles mid current part).map StoredFile.file := by
  have middle : (mid.map fun kept => (⟨kept.1.firstSeq, kept.2, []⟩ : StoredFile)).map
      StoredFile.file = mid.files := by
    rw [List.map_map, Log.files]
    apply List.map_congr_left
    intro kept member
    change (kept.1.firstSeq, encodeAll kept.2 ++ []) = (kept.1.path, encodeAll kept.2)
    rw [List.append_nil, (written.closed.holds kept member).path]
  have last : [(⟨current.1.firstSeq, current.2, part⟩ : StoredFile)].map StoredFile.file =
      [(current.1.path, encodeAll current.2 ++ part)] := by
    rw [written.holds.path]
    rfl
  rw [Disk.append_last written.names written.files, tornFiles, List.map_append, middle, last]

theorem Written.tornFiles_sound (readable : ∀ kept ∈ log, ∀ entry ∈ kept.2, entry.Fits)
    {part : List UInt8} (cut : readFrame part = none) :
    ∀ f ∈ tornFiles mid current part, f.Sound := by
  have fits : ∀ kept ∈ mid ++ [current], ∀ entry ∈ kept.2, entry.Fits := by
    intro kept member entry inEntries
    rcases written.entries_of_log kept member entry inEntries with ⟨old, inLog, held⟩
    exact readable old inLog entry held
  have numbered : ∀ kept : Segment × List Entry, Holds kept.1 kept.2 →
      kept.2.map (·.seq) = List.range' kept.1.firstSeq kept.2.length := by
    intro kept holds
    rw [holds.numbered, Segment.seqs, holds.count]
  intro f member
  rcases List.mem_append.mp member with older | last
  · rcases List.mem_map.mp older with ⟨kept, inMid, rfl⟩
    exact ⟨numbered kept (written.closed.holds kept inMid),
      fits kept (List.mem_append_left _ inMid), readFrame_nil⟩
  · rw [List.mem_singleton.mp last]
    exact ⟨numbered current written.holds,
      fits current (List.mem_append_right _ (List.mem_singleton_self _)), cut⟩

theorem Written.tornFiles_increasing (part : List UInt8) :
    (tornFiles mid current part).Pairwise fun a b =>
      a.name < b.name ∧ a.name + a.entries.length ≤ b.name := by
  apply List.pairwise_append.mpr
  refine ⟨?_, List.pairwise_singleton _ _, ?_⟩
  · apply List.pairwise_map.mpr
    apply written.closed.increasing.imp_of_mem
    intro first second inFirst _ after
    have filled := written.closed.nonempty first inFirst
    have count := (written.closed.holds first inFirst).count
    change first.1.firstSeq < second.1.firstSeq ∧
      first.1.firstSeq + first.2.length ≤ second.1.firstSeq
    omega
  · intro f older last single
    rcases List.mem_map.mp older with ⟨kept, inMid, rfl⟩
    rw [List.mem_singleton.mp single]
    have filled := written.closed.nonempty kept inMid
    have below := written.closed.below kept inMid
    have count := (written.closed.holds kept inMid).count
    change kept.1.firstSeq < current.1.firstSeq ∧
      kept.1.firstSeq + kept.2.length ≤ current.1.firstSeq
    omega

theorem Written.tornFiles_below (part : List UInt8) :
    ∀ f ∈ tornFiles mid current part, f.name + f.entries.length ≤ spool.nextSeq := by
  have ends := written.ends
  have length := written.holds.count
  intro f member
  rcases List.mem_append.mp member with older | last
  · rcases List.mem_map.mp older with ⟨kept, inMid, rfl⟩
    have below := written.closed.below kept inMid
    have count := (written.closed.holds kept inMid).count
    change kept.1.firstSeq + kept.2.length ≤ spool.nextSeq
    omega
  · rw [List.mem_singleton.mp last]
    change current.1.firstSeq + current.2.length ≤ spool.nextSeq
    omega

theorem Written.tornFiles_stored (segments : spool.segments = log.segments) (part : List UInt8)
    {seq : Nat} (waits : seq ∈ spool.waiting) (kept : seq ∉ front.unackedSeqs) :
    Stored (tornFiles mid current part) seq := by
  have active : spool.waiting = (front ++ (mid ++ [current])).unackedSeqs := by
    rw [waiting_of_segments segments, ← written.parts, Spool.opened]
    split
    · rw [Log.unackedSeqs_append, Log.unackedSeqs_singleton]
      exact (List.append_nil _).symm
    · rfl
  rw [active, Log.unackedSeqs_append] at waits
  have inRest := (List.mem_append.mp waits).resolve_left kept
  rcases (Log.mem_unackedSeqs _ seq).mp inRest with ⟨other, member, unacked⟩
  have inSeqs := (other.1.mem_seqs seq).mpr ((other.1.mem_unackedSeqs seq).mp unacked).1
  rcases List.mem_append.mp member with older | last
  · rw [← (written.closed.holds other older).numbered] at inSeqs
    rcases List.mem_map.mp inSeqs with ⟨entry, inEntries, number⟩
    exact ⟨_, List.mem_append_left _ (List.mem_map_of_mem older), entry, inEntries, number⟩
  · rw [List.mem_singleton.mp last] at inSeqs
    rw [← written.holds.numbered] at inSeqs
    rcases List.mem_map.mp inSeqs with ⟨entry, inEntries, number⟩
    exact ⟨_, List.mem_append_right _ (List.mem_singleton_self _), entry, inEntries, number⟩

theorem Written.tornFiles_old (segments : spool.segments = log.segments)
    (ordered : log.Ordered spool.nextSeq) (part : List UInt8) {seq : Nat}
    (stored : Stored (tornFiles mid current part) seq) : spool.contains seq = true := by
  have inLog : ∃ kept ∈ log, ∃ entry ∈ kept.2, entry.seq = seq := by
    rcases stored with ⟨f, member, entry, inEntries, number⟩
    rcases List.mem_append.mp member with older | last
    · rcases List.mem_map.mp older with ⟨kept, inMid, rfl⟩
      rcases written.entries_of_log kept (List.mem_append_left _ inMid) entry inEntries with
        ⟨old, held, same⟩
      exact ⟨old, held, entry, same, number⟩
    · rw [List.mem_singleton.mp last] at inEntries
      rcases written.entries_of_log current
        (List.mem_append_right _ (List.mem_singleton_self _)) entry inEntries with ⟨old, held, same⟩
      exact ⟨old, held, entry, same, number⟩
  rcases inLog with ⟨kept, held, entry, inEntries, rfl⟩
  have inSeqs := List.mem_map_of_mem (f := fun entry : Entry => entry.seq) inEntries
  rw [(ordered.holds kept held).numbered] at inSeqs
  rw [Spool.contains, segments]
  exact List.any_eq_true.mpr ⟨kept.1, List.mem_map_of_mem held, (kept.1.mem_seqs _).mp inSeqs⟩

theorem Written.tornFiles_excludes (ordered : log.Ordered spool.nextSeq) (part : List UInt8)
    {seq : Nat} (dropped : seq ∈ front.unackedSeqs) :
    ¬ Stored (tornFiles mid current part) seq := by
  have later := written.starts_behind ordered dropped
  rintro ⟨f, member, entry, inEntries, rfl⟩
  rcases List.mem_append.mp member with older | last
  · rcases List.mem_map.mp older with ⟨kept, inMid, rfl⟩
    have above := seq_of_entry (written.closed.holds kept inMid) entry inEntries
    have behind := later kept (List.mem_append_left _ inMid)
    omega
  · rw [List.mem_singleton.mp last] at inEntries
    have above := seq_of_entry written.holds entry inEntries
    have behind := later current (List.mem_append_right _ (List.mem_singleton_self _))
    omega

end Torn

/-- A process that dies while it writes a record leaves files to recover: nothing new, and of what
waited all but the numbers it had dropped to make room. -/
theorem Agrees.torn {disk : Disk} {spool : Spool} {log : Log} (agrees : Agrees disk spool log)
    {event : Spool.Event} (body : (entryBody (event.entry spool.nextSeq)).length < 2 ^ 32)
    {torn : Nat} (proper : torn < (encodeEntry (event.entry spool.nextSeq)).length)
    {answer : Spool × Nat × Option Loss} (given : (spool.append event).2 = some answer) :
    ∃ files dropped, Recoverable (disk.applyAll (Machine.cut (spool.append event).1
        ((spool.append event).1.length - 1) torn)) files ∧ Appends spool answer log dropped ∧
      spool.makesRoom event = dropped.segments ∧
      (∀ seq, Stored files seq → spool.contains seq = true) ∧
      (∀ seq ∈ spool.waiting, seq ∉ dropped.unackedSeqs → Stored files seq) ∧
      ∀ seq ∈ dropped.unackedSeqs, ¬ Stored files seq := by
  rcases agrees.append body given with
    ⟨front, mid, current, reserving, ready, before, whole, same, _, written, _, _⟩
  have sameSeq : ready.nextSeq = spool.nextSeq := by
    rw [same]
  have segments : ready.segments = log.segments := by
    rw [same]
    exact agrees.segments
  have ordered : log.Ordered ready.nextSeq := by
    rw [sameSeq]
    exact agrees.ordered
  have isAnswer : (ready.appendReserved event).2 = answer := by
    rw [whole] at given
    exact Option.some.inj given
  have appends := written.appends ordered segments
  rw [isAnswer] at appends
  have effects : (spool.append event).1 = (reserving ++ before) ++
      [.appendSegment current.1.path (encodeEntry (event.entry spool.nextSeq))] := by
    rw [whole, written.effects, sameSeq, List.append_assoc]
  let part := (encodeEntry (event.entry spool.nextSeq)).take torn
  have cut : readFrame part = none := by
    apply readFrame_cut body (List.take_prefix torn _)
    have length : part.length ≤ torn := List.length_take_le _ _
    exact Nat.lt_of_le_of_lt length proper
  have waiting : ready.waiting = spool.waiting := by
    rw [same]
    rfl
  have contains : ready.contains = spool.contains := by
    rw [same]
    rfl
  have room : spool.makesRoom event = front.segments :=
    calc
      spool.makesRoom event =
          Spool.makesRoom { spool with reservedUntil := ready.reservedUntil } event :=
        (Spool.makesRoom_reserved spool event ready.reservedUntil).symm
      _ = ready.makesRoom event := congrArg (Spool.makesRoom · event) same.symm
      _ = front.segments := written.room
  refine ⟨tornFiles mid current part, front, ?_, appends.reserved same, room, ?_, ?_, ?_⟩
  · constructor
    · rw [effects, cut_record, Disk.applyAll_append, Disk.applyAll_append]
      exact written.tornFiles_segments part
    · exact written.tornFiles_sound agrees.readable cut
    · exact written.tornFiles_increasing part
    · rcases append_reserves disk spool event agrees.inFile with ⟨blockEnd, reserves, _⟩
      have grown := reserves.cut ((spool.append event).1.length - 1) torn
      intro f member
      have below := written.tornFiles_below part f member
      have reserved := agrees.reserved
      rw [agrees.inFile] at grown
      omega
  · intro seq stored
    rw [← contains]
    exact written.tornFiles_old segments ordered part stored
  · intro seq waits kept
    rw [← waiting] at waits
    exact written.tornFiles_stored segments part waits kept
  · intro seq dropped
    exact written.tornFiles_excludes ordered part dropped

end PiAgents.Spooling
