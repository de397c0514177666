import PiAgents.Lib.Runs
import PiAgents.Spooling.Agreement

/-! What the bookkeeping of an open spool says of its records and of its files, after every call of
every run that starts on an empty directory. -/

namespace PiAgents.Spooling

/-- The segments in memory, the files and the numbers kept beside them. -/
structure Represented (disk : Disk) (spool : Spool) : Prop where
  nonempty : ∀ s ∈ spool.segments, 0 < s.count
  increasing : spool.segments.Pairwise fun a b => a.firstSeq + a.count ≤ b.firstSeq
  below : ∀ s ∈ spool.segments, s.firstSeq + s.count ≤ spool.nextSeq
  reserved : spool.nextSeq ≤ Spool.readNumber disk.sequence
  bits : ∀ s ∈ spool.segments, s.acked.length = s.count
  unacked : ∀ s ∈ spool.segments, s.unacked = (s.seqs.filter fun seq => !s.isAcked seq).length
  /-- Every file has the bytes of its segment, and records numbered one by one. -/
  files : List.Forall₂ (fun s file => file.1 = s.path ∧ file.2.length = s.bytes ∧
    (readSegment file.2).1.map (·.seq) = s.seqs) spool.segments disk.segments
  total : spool.totalBytes = (spool.segments.map (·.bytes)).sum
  onDisk : spool.totalBytes = (disk.segments.map fun file => file.2.length).sum
  /-- The watermark is the least number that is not acknowledged, or the next one. -/
  least : ∀ s ∈ spool.segments, ∀ seq ∈ s.unackedSeqs, spool.ackWatermark ≤ seq
  watermark : (∃ s ∈ spool.segments, spool.ackWatermark ∈ s.unackedSeqs) ∨
    spool.unacked = 0 ∧ spool.ackWatermark = spool.nextSeq

theorem unackedSeqs_of_zero {s : Segment} (sound : s.Sound) (zero : ¬ 0 < s.unacked) :
    s.unackedSeqs = [] := by
  apply List.length_eq_zero_iff.mp
  rw [← sound.unacked]
  exact Nat.eq_zero_of_not_pos zero

theorem Layout.ackWatermark {disk : Disk} {spool : Spool} {log : Log}
    (layout : Layout disk spool log) :
    spool.ackWatermark = log.unackedSeqs.head?.getD spool.nextSeq := by
  have quiet : ∀ front : Log, (∀ kept ∈ front, kept ∈ log) →
      (∀ s ∈ front.segments, ¬ 0 < s.unacked) → front.unackedSeqs = [] := by
    intro front inside zero
    apply List.flatMap_eq_nil_iff.mpr
    intro kept member
    exact unackedSeqs_of_zero (layout.ordered.holds kept (inside kept member)).sound
      (zero kept.1 (List.mem_map_of_mem member))
  unfold Spool.ackWatermark
  rw [layout.segments]
  cases found : log.segments.find? fun s => decide (0 < s.unacked) with
  | none =>
      have none' : log.unackedSeqs = [] := by
        apply quiet log (fun kept member => member)
        intro s member waiting
        exact List.find?_eq_none.mp found s member (decide_eq_true waiting)
      rw [none']
      rfl
  | some s =>
      rcases List.find?_eq_some_iff_append.mp found with ⟨waiting, front, rest, parts, zero⟩
      rcases Log.split parts.symm with ⟨first, second, rfl, isFront, isRest⟩
      rcases List.map_eq_cons_iff.mp isRest with ⟨kept, later, rfl, rfl, _⟩
      have none' : first.unackedSeqs = [] := by
        apply quiet first (fun kept member => List.mem_append_left _ member)
        intro s member held
        rw [isFront] at member
        have passed := zero s member
        rw [decide_eq_true held] at passed
        cases passed
      have sound := (layout.ordered.holds kept
        (List.mem_append_right _ List.mem_cons_self)).sound
      have waits : kept.1.unackedSeqs ≠ [] := by
        intro empty
        have positive := of_decide_eq_true waiting
        rw [sound.unacked, empty] at positive
        cases positive
      have whole : Log.unackedSeqs (first ++ kept :: later) =
          kept.1.unackedSeqs ++ Log.unackedSeqs later := by
        rw [Log.unackedSeqs_append, none', List.nil_append]
        rfl
      rw [whole]
      cases numbers : kept.1.unackedSeqs with
      | nil => exact absurd numbers waits
      | cons least others =>
          change kept.1.unackedSeqs.headD spool.nextSeq = least
          rw [numbers]
          rfl

namespace Agrees

variable {disk : Disk} {spool : Spool} {log : Log}

theorem read_numbers (agrees : Agrees disk spool log) :
    List.Forall₂ (fun s file => file.1 = s.path ∧ file.2.length = s.bytes ∧
      (readSegment file.2).1.map (·.seq) = s.seqs) spool.segments disk.segments := by
  rw [agrees.segments, agrees.files, Log.segments, Log.files]
  apply List.forall₂_map_left_iff.mpr
  apply List.forall₂_map_right_iff.mpr
  apply List.forall₂_same.mpr
  intro kept member
  have holds := agrees.ordered.holds kept member
  have read := readSegment_encodeAll (agrees.readable kept member) readFrame_nil
  rw [List.append_nil] at read
  refine ⟨rfl, holds.bytes.symm, ?_⟩
  rw [read, ← holds.numbered, List.map_map]
  rfl

theorem least_unacked (agrees : Agrees disk spool log) :
    (∀ seq ∈ log.unackedSeqs, spool.ackWatermark ≤ seq) ∧
      (spool.ackWatermark ∈ log.unackedSeqs ∨
        log.unackedSeqs = [] ∧ spool.ackWatermark = spool.nextSeq) := by
  have sorted := agrees.ordered.unackedSeqs_sorted
  rw [agrees.toLayout.ackWatermark]
  cases numbers : log.unackedSeqs with
  | nil =>
      refine ⟨?_, Or.inr ⟨rfl, rfl⟩⟩
      intro seq member
      cases member
  | cons first rest =>
      rw [numbers] at sorted
      refine ⟨?_, Or.inl List.mem_cons_self⟩
      intro seq member
      rcases List.mem_cons.mp member with rfl | later
      · exact Nat.le_refl _
      · exact Nat.le_of_lt ((List.pairwise_cons.mp sorted).1 seq later)

theorem represented (agrees : Agrees disk spool log) : Represented disk spool := by
  have held : ∀ s ∈ spool.segments, ∃ kept ∈ log, kept.1 = s := by
    intro s member
    rw [agrees.segments] at member
    exact List.mem_map.mp member
  have watermark := agrees.least_unacked
  constructor
  · intro s member
    rcases held s member with ⟨kept, inLog, rfl⟩
    exact agrees.ordered.nonempty kept inLog
  · rw [agrees.segments]
    exact List.pairwise_map.mpr agrees.ordered.increasing
  · intro s member
    rcases held s member with ⟨kept, inLog, rfl⟩
    exact agrees.ordered.below kept inLog
  · rw [agrees.inFile]
    exact agrees.reserved
  · intro s member
    rcases held s member with ⟨kept, inLog, rfl⟩
    exact (agrees.ordered.holds kept inLog).sound.bits
  · intro s member
    rcases held s member with ⟨kept, inLog, rfl⟩
    exact (agrees.ordered.holds kept inLog).sound.unacked
  · exact agrees.read_numbers
  · exact agrees.total
  · rw [agrees.total, agrees.segments, agrees.files, Spool.bytesOf, Log.segments, Log.files,
      List.map_map, List.map_map]
    congr 1
    apply List.map_congr_left
    intro kept member
    exact (agrees.ordered.holds kept member).bytes
  · intro s member seq unacked
    rcases held s member with ⟨kept, inLog, rfl⟩
    exact watermark.1 seq ((log.mem_unackedSeqs seq).mpr ⟨kept, inLog, unacked⟩)
  · rcases watermark.2 with some' | ⟨none', next⟩
    · left
      rcases (log.mem_unackedSeqs _).mp some' with ⟨kept, inLog, unacked⟩
      refine ⟨kept.1, ?_, unacked⟩
      rw [agrees.segments]
      exact List.mem_map_of_mem inLog
    · right
      refine ⟨?_, next⟩
      rw [agrees.toLayout.unacked, none']
      rfl

/-- The watermark does not go down where numbers are only acknowledged, dropped or added at the
end. -/
theorem watermark_mono (agrees : Agrees disk spool log) {disk' : Disk} {spool' : Spool} {log' : Log}
    (agrees' : Agrees disk' spool' log') (next : spool.nextSeq ≤ spool'.nextSeq)
    (old : ∀ seq ∈ log'.unackedSeqs, seq ∈ log.unackedSeqs ∨ spool.nextSeq ≤ seq) :
    spool.ackWatermark ≤ spool'.ackWatermark := by
  have before := agrees.least_unacked
  have reached : spool.ackWatermark ≤ spool.nextSeq := by
    rcases before.2 with some' | ⟨_, same⟩
    · exact Nat.le_of_lt (agrees.ordered.unackedSeqs_below _ some')
    · exact Nat.le_of_eq same
  rcases agrees'.least_unacked.2 with some' | ⟨_, same⟩
  · rcases old _ some' with held | above
    · exact before.1 _ held
    · exact Nat.le_trans reached above
  · rw [same]
    exact Nat.le_trans reached next

end Agrees

/-- What a call keeps: the bookkeeping of the spool it leaves, the limit after an append of a record
within it, and the watermark until the next opening. -/
structure Maintains (m : Machine) (call : Call) : Prop where
  represented : ∀ after ∈ (m.step call).spool, Represented (m.step call).disk after
  limit : ∀ event, call = .append event → ∀ before ∈ m.spool,
    (encodeEntry (event.entry before.nextSeq)).length ≤ before.config.maxBytes →
      ∀ after ∈ (m.step call).spool, after.totalBytes ≤ after.config.maxBytes
  watermark : (∀ config, call ≠ .open config) → ∀ before ∈ m.spool,
    ∀ after ∈ (m.step call).spool, before.ackWatermark ≤ after.ackWatermark

namespace Agrees

variable {disk : Disk} {spool : Spool} {log : Log}

theorem maintains_append (agrees : Agrees disk spool log) (event : Spool.Event)
    (body : (entryBody (event.entry spool.nextSeq)).length < 2 ^ 32)
    {answer : Spool × Nat × Option Loss} (given : (spool.append event).2 = some answer) :
    ((encodeEntry (event.entry spool.nextSeq)).length ≤ spool.config.maxBytes →
      answer.1.totalBytes ≤ answer.1.config.maxBytes) ∧
    spool.ackWatermark ≤ answer.1.ackWatermark := by
  rcases agrees.append body given with
    ⟨front, mid, current, reserving, ready, before, whole, same, _, written, _, after⟩
  have isAnswer : answer = (ready.appendReserved event).2 := by
    rw [whole] at given
    exact (Option.some.inj given).symm
  have sameSeq : ready.nextSeq = spool.nextSeq := by
    rw [same]
  have sameConfig : ready.config = spool.config := by
    rw [same]
  constructor
  · intro short
    have total : ready.totalBytes = Spool.bytesOf ready.segments := by
      rw [same]
      exact agrees.total
    have config : 2 * ready.config.segmentBytes ≤ ready.config.maxBytes := by
      rw [sameConfig]
      exact agrees.config
    rw [← sameSeq, ← sameConfig] at short
    rw [isAnswer, Spool.appendReserved_config]
    exact Spool.appendReserved_total total config short
  · have numbers := written.unackedSeqs
    rw [sameSeq] at numbers
    apply agrees.watermark_mono after
    · have next := appendReserved_nextSeq ready event
      rw [isAnswer, next, sameSeq]
      exact Nat.le_succ _
    · intro seq member
      have inWhole : seq ∈ log.unackedSeqs ++ [spool.nextSeq] := by
        rw [numbers]
        exact List.mem_append_right _ member
      rcases List.mem_append.mp inWhole with old | new
      · exact Or.inl old
      · exact Or.inr (Nat.le_of_eq (List.mem_singleton.mp new).symm)

theorem maintains_ack (agrees : Agrees disk spool log) (seq : Nat) :
    Represented (disk.applyAll (spool.ack seq).1) (spool.ack seq).2 ∧
      spool.ackWatermark ≤ (spool.ack seq).2.ackWatermark := by
  rcases agrees.ack seq with ⟨front, rest, parts, _, after⟩
  have next : (spool.ack seq).2.nextSeq = spool.nextSeq := by
    unfold Spool.ack
    split
    · rfl
    · rfl
  refine ⟨after.represented, agrees.watermark_mono after (Nat.le_of_eq next.symm) ?_⟩
  intro number member
  left
  have inWhole : number ∈ (log.acknowledge seq).unackedSeqs := by
    rw [parts, Log.unackedSeqs_append]
    exact List.mem_append_right _ member
  rw [agrees.ordered.acknowledge_unackedSeqs] at inWhole
  exact List.mem_of_mem_erase inWhole

end Agrees

namespace Machine

theorem maintains_nothing {m : Machine} {call : Call} (nothing : (m.step call).spool = none) :
    Maintains m call := by
  constructor
  · intro after left'
    rw [nothing] at left'
    cases left'
  · intro event _ before _ _ after left'
    rw [nothing] at left'
    cases left'
  · intro _ before _ after left'
    rw [nothing] at left'
    cases left'

theorem Consistent.maintains {m : Machine} (consistent : m.Consistent) (call : Call)
    (writes : m.Writes call) : Maintains m call := by
  have stepped := consistent.step call writes
  have represented : ∀ after ∈ (m.step call).spool, Represented (m.step call).disk after := by
    intro after left'
    generalize m.step call = next at stepped left'
    cases stepped with
    | stopped recoverable => cases left'
    | running agrees =>
        cases left'
        exact agrees.represented
  cases call with
  | «open» config =>
      refine ⟨represented, ?_, fun opens => absurd rfl (opens config)⟩
      intro event isAppend
      cases isAppend
  | append event =>
      cases consistent with
      | stopped recoverable => exact maintains_nothing rfl
      | @running disk spool log agrees =>
          cases given : (spool.append event).2 with
          | none =>
              apply maintains_nothing
              simp only [Machine.step, perform, given, Option.map_none]
          | some answer =>
              have kept := agrees.maintains_append event (writes spool rfl) given
              have isNext : (Machine.step ⟨disk, some spool⟩ (.append event)).spool =
                  some answer.1 := by
                simp only [Machine.step, perform, given, Option.map_some]
              refine ⟨represented, ?_, ?_⟩
              · intro other isAppend before held short after left'
                cases isAppend
                cases held
                cases isNext.symm.trans left'
                exact kept.1 short
              · intro _ before held after left'
                cases held
                cases isNext.symm.trans left'
                exact kept.2
  | ack seq =>
      cases consistent with
      | stopped recoverable => exact maintains_nothing rfl
      | running agrees =>
          refine ⟨represented, ?_, ?_⟩
          · intro event isAppend
            cases isAppend
          · intro _ before held after left'
            cases held
            cases left'
            exact (agrees.maintains_ack seq).2
  | sync =>
      cases consistent with
      | stopped recoverable => exact maintains_nothing rfl
      | running agrees =>
          refine ⟨represented, ?_, ?_⟩
          · intro event isAppend
            cases isAppend
          · intro _ before held after left'
            cases held
            cases left'
            exact Nat.le_refl _

theorem Consistent.run {m : Machine} (consistent : m.Consistent) (calls : List Call)
    (writes : Runs.Meets Machine.step Writes m calls) : Runs.Meets Machine.step Maintains m calls := by
  induction calls generalizing m with
  | nil => trivial
  | cons call rest ih =>
      exact ⟨consistent.maintains call writes.1, ih (consistent.step call writes.1) writes.2⟩

end Machine

/-- From an empty directory on, whatever the configurations and the calls, the bookkeeping is right
after every call, as long as every record's length fits its field. -/
theorem representation (calls : List Call)
    (writes : Runs.Meets Machine.step Machine.Writes ⟨.empty, none⟩ calls) :
    Runs.Meets Machine.step Maintains ⟨.empty, none⟩ calls :=
  Machine.consistent_empty.run calls writes

def smallSegments : SpoolConfig := ⟨100, 2 ^ 40⟩

def plain : Spool.Event := ⟨.flows, [], 0, fun _ => []⟩

theorem writes_plain (m : Machine) : m.Writes (.append plain) := by
  intro spool _
  rw [entryBody_length]
  exact show 19 < 2 ^ 32 by decide

def plainCalls : List Call :=
  [.open smallSegments, .append plain, .append plain, .ack 1, .sync, .open smallSegments,
    .append plain, .ack 0]

theorem representation_plain : Runs.Meets Machine.step Maintains ⟨.empty, none⟩ plainCalls :=
  representation plainCalls ⟨trivial, writes_plain _, writes_plain _, trivial, trivial, trivial,
    writes_plain _, trivial, trivial⟩

/-! A record whose body is 2^32 bytes longer than its length field says. The checksum of the whole
body is also that of its first bytes, so these are read back as a record of their own, and what
follows them as another one. -/

/-- Four bytes that take the checksum of the fields before them to its fixed point, another record,
an empty header, and four bytes that take the checksum there again. -/
def hidden : List UInt8 :=
  [167, 92, 53, 36] ++ encodeEntry ⟨77, 0, .flows, [], []⟩ ++ List.replicate 8 0 ++ [29, 78, 61, 131]

def oversized (zeros : Nat) : Spool.Event where
  topic := .flows
  key := []
  eventTimeMs := 0
  payload _ := hidden ++ List.replicate zeros 0

def oversizedCalls (zeros : Nat) : List Call :=
  [.open smallSegments, .append (oversized zeros), .append plain, .open smallSegments]

private theorem crc_zeros (count : Nat) :
    (List.replicate count (0 : UInt8)).foldl crcByte 0 = 0 := by
  have fixed : crcByte 0 0 = 0 := by decide
  induction count with
  | zero => rfl
  | succ count ih => rw [List.replicate_succ, List.foldl_cons, fixed, ih]

/-- The record that is read first. -/
def leading : Entry := ⟨0, 0, .flows, [], [167, 92, 53, 36]⟩

def lurking : Entry := ⟨77, 0, .flows, [], []⟩

section Hidden

variable {zeros : Nat}

private theorem oversized_body :
    entryBody ((oversized zeros).entry 0) =
      entryBody leading ++ (encodeEntry lurking ++ (List.replicate 8 0 ++ ([29, 78, 61, 131] ++
        List.replicate zeros 0))) := by
  simp only [entryBody, Spool.Event.entry, oversized, hidden, leading, lurking, List.append_assoc]

private theorem oversized_length : (entryBody ((oversized zeros).entry 0)).length = 62 + zeros := by
  rw [oversized_body]
  simp only [List.length_append, List.length_replicate]
  have fields : (entryBody leading).length = 23 := by decide
  have record : (encodeEntry lurking).length = 27 := by decide
  rw [fields, record]
  change 23 + (27 + (8 + (4 + zeros))) = _
  omega

private theorem oversized_crc :
    crc32 (entryBody ((oversized zeros).entry 0)) = crc32 (entryBody leading) := by
  have first : (entryBody leading).foldl crcByte 0xffffffff = 0 := by
    decide +kernel
  have second : (encodeEntry lurking ++ (List.replicate 8 0 ++ [29, 78, 61, 131])).foldl
      crcByte 0 = 0 := by
    decide +kernel
  have parts : entryBody ((oversized zeros).entry 0) = entryBody leading ++
      (encodeEntry lurking ++ (List.replicate 8 0 ++ [29, 78, 61, 131]) ++
        List.replicate zeros 0) := by
    rw [oversized_body]
    simp only [List.append_assoc]
  unfold crc32
  rw [parts, List.foldl_append, List.foldl_append, first, second, crc_zeros]

private theorem oversized_file (long : zeros + 39 = 2 ^ 32) :
    encodeEntry ((oversized zeros).entry 0) =
      encodeAll [leading, lurking] ++ (List.replicate 8 0 ++ ([29, 78, 61, 131] ++
        List.replicate zeros 0)) := by
  have field : toLeBytes 4 (62 + zeros) = toLeBytes 4 (entryBody leading).length := by
    have same : 62 + zeros = 23 + 2 ^ 32 := by omega
    have fields : (entryBody leading).length = 23 := by decide
    rw [same, fields]
    decide
  rw [encodeEntry, frame, oversized_length, field, oversized_crc, oversized_body]
  simp only [encodeAll_cons, encodeAll_nil, encodeEntry, frame, List.append_assoc, List.nil_append]

theorem oversized_read (long : zeros + 39 = 2 ^ 32) :
    readSegment (encodeEntry ((oversized zeros).entry 0)) = ([leading, lurking], 58) := by
  have fits : ∀ entry ∈ [leading, lurking], entry.Fits := by
    intro entry member
    simp only [List.mem_cons, List.not_mem_nil, or_false] at member
    rcases member with rfl | rfl
    · exact ⟨by decide, by decide⟩
    · exact ⟨by decide, by decide⟩
  have read := readSegment_of_ends fits
    (readRecords_zeroHeader ([29, 78, 61, 131] ++ List.replicate zeros 0))
  rw [← oversized_file long] at read
  rw [read]
  rfl

end Hidden

theorem opened_empty : Machine.step ⟨.empty, none⟩ (.open smallSegments) =
    ⟨⟨[], some (numberLine 4096), none, none, none⟩,
      some ⟨smallSegments, [], none, 0, 4096, 0⟩⟩ := by
  have fits : ¬ smallSegments.maxBytes < 2 * smallSegments.segmentBytes := by decide
  have sorted : Disk.empty.sorted = [] := List.mergeSort_nil
  simp only [Machine.step, Machine.perform, Spool.open, fits, if_false, sorted, List.flatMap_nil,
    List.filterMap_nil]
  rfl

theorem appended_two {first second : Spool.Event}
    (full : 100 < (encodeEntry (first.entry 0)).length + (encodeEntry (second.entry 1)).length)
    (room : (encodeEntry (first.entry 0)).length + (encodeEntry (second.entry 1)).length ≤ 2 ^ 40) :
    (Machine.step (Machine.step ⟨⟨[], some (numberLine 4096), none, none, none⟩,
      some ⟨smallSegments, [], none, 0, 4096, 0⟩⟩ (.append first)) (.append second)).disk =
      ⟨[(0, encodeEntry (first.entry 0)), (1, encodeEntry (second.entry 1))],
        some (numberLine 4096), none, none, none⟩ := by
  let firstLen := (encodeEntry (first.entry 0)).length
  let secondLen := (encodeEntry (second.entry 1)).length
  have total : 0 + firstLen = firstLen := Nat.zero_add _
  let active : Segment := ⟨0, 0, 1, [false], 1, min Int64.maxValue first.eventTimeMs,
    max Int64.minValue first.eventTimeMs, 0 + firstLen⟩
  let one : Spool := ⟨smallSegments, [active], some 0, 1, 4096, 0 + firstLen⟩
  have made : Machine.step ⟨⟨[], some (numberLine 4096), none, none, none⟩,
      some ⟨smallSegments, [], none, 0, 4096, 0⟩⟩ (.append first) =
      ⟨⟨[(0, encodeEntry (first.entry 0))], some (numberLine 4096), none, none, none⟩,
        some one⟩ := rfl
  have rotates : one.needsRotation (encodeEntry (second.entry one.nextSeq)).length = true := by
    change (false || decide (100 < 0 + firstLen + secondLen)) = true
    rw [total, decide_eq_true full]
    rfl
  have fits : ¬ 2 ^ 40 < 0 + firstLen + secondLen := by
    rw [total]
    exact Nat.not_lt.mpr room
  have kept : Spool.overLimit (2 ^ 40) secondLen (0 + firstLen) [active, .new 1 1] =
      ([], [active, .new 1 1]) := by
    rw [Spool.overLimit, if_neg fits]
  have effects : (one.append second).1 =
      [.createSegment 1, .appendSegment 1 (encodeEntry (second.entry 1))] := by
    have reserved : ¬ one.reservedUntil ≤ one.nextSeq := by
      change ¬ 4096 ≤ 1
      decide
    rw [Spool.append, if_neg reserved]
    change (one.appendReserved second).1 = _
    simp only [Spool.appendReserved, rotates, if_true]
    change [Effect.createSegment 1] ++ Spool.removals (Spool.overLimit (2 ^ 40) secondLen
      (0 + firstLen) [active, .new 1 1]).1 ++ [.appendSegment 1 (encodeEntry (second.entry 1))] = _
    rw [kept]
    rfl
  rw [made]
  change Disk.applyAll ⟨[(0, encodeEntry (first.entry 0))], some (numberLine 4096), none, none,
    none⟩ (one.append second).1 = _
  rw [effects]
  rfl

/-- Recovery finds two records in the first file, and the second number is that of the other file. -/
theorem reopened_overlap {first second : List UInt8}
    (hides : readSegment first = ([leading, lurking], 58))
    (shows : readSegment second = ([plain.entry 1], second.length)) :
    ((Machine.step ⟨⟨[(0, first), (1, second)], some (numberLine 4096), none, none, none⟩, none⟩
      (.open smallSegments)).spool.map fun spool =>
        spool.segments.map fun s => (s.firstSeq, s.count)) = some [(0, 2), (1, 1)] := by
  let disk : Disk := ⟨[(0, first), (1, second)], some (numberLine 4096), none, none, none⟩
  have accepted : ¬ smallSegments.maxBytes < 2 * smallSegments.segmentBytes := by decide
  have sorted : disk.sorted = [(0, first), (1, second)] :=
    disk.sorted_of_increasing (List.pairwise_pair.mpr (Nat.zero_le 1))
  have number : Spool.readNumber disk.sequence = 4096 := readNumber_numberLine (by decide)
  have isFirst : Spool.recoveredSegment (0, first) = some
      ⟨0, 0, 2, [false, false], 2, 0, 0, 58⟩ := by
    rw [Spool.recoveredSegment, hides]
    rfl
  have isSecond : Spool.recoveredSegment (1, second) = some
      ⟨1, 1, 1, [false], 1, 0, 0, second.length⟩ := by
    rw [Spool.recoveredSegment, shows]
    rfl
  have highest : Spool.maxSeq [(0, first), (1, second)] = some 77 := by
    simp only [Spool.maxSeq, List.filterMap_cons, List.filterMap_nil, hides, shows]
    rfl
  have next : max 4096 (((some 77 : Option Nat).map (· + 1)).getD 0) = 4096 := rfl
  have fits : 4096 + sequenceBlock < 2 ^ 64 := by decide
  have recovered : [(0, first), (1, second)].filterMap Spool.recoveredSegment =
      [⟨0, 0, 2, [false, false], 2, 0, 0, 58⟩, ⟨1, 1, 1, [false], 1, 0, 0, second.length⟩] := by
    rw [List.filterMap_cons_some isFirst, List.filterMap_cons_some isSecond, List.filterMap_nil]
  have marked : [⟨0, 0, 2, [false, false], 2, 0, 0, 58⟩,
      ⟨1, 1, 1, [false], 1, 0, 0, second.length⟩].map (Spool.markDelivered (Spool.readNumber none)) =
      [⟨0, 0, 2, [false, false], 2, 0, 0, 58⟩, ⟨1, 1, 1, [false], 1, 0, 0, second.length⟩] := rfl
  have opened : (Spool.open smallSegments disk).2 = some
      (Spool.dropAckedFront ⟨smallSegments, [⟨0, 0, 2, [false, false], 2, 0, 0, 58⟩,
        ⟨1, 1, 1, [false], 1, 0, 0, second.length⟩], none, 4096, 4096 + sequenceBlock,
        Spool.bytesOf [⟨0, 0, 2, [false, false], 2, 0, 0, 58⟩,
          ⟨1, 1, 1, [false], 1, 0, 0, second.length⟩]⟩).2 := by
    simp only [Spool.open, accepted, if_false, sorted, number, highest, next, recovered,
      Spool.reserveSequences, if_pos fits]
    rw [marked]
  simp only [Machine.step, Machine.perform]
  rw [opened]
  rfl

theorem oversized_overlap {zeros : Nat} (long : zeros + 39 = 2 ^ 32) :
    ¬ Runs.Meets Machine.step Maintains ⟨.empty, none⟩ (oversizedCalls zeros) := by
  rintro ⟨_, _, _, last, _⟩
  have firstLen : (encodeEntry ((oversized zeros).entry 0)).length = 70 + zeros := by
    rw [encodeEntry, frame_length, oversized_length, recordHeader]
    omega
  have secondLen : (encodeEntry (plain.entry 1)).length = 27 := by decide
  have disk := appended_two
    (show 100 < (encodeEntry ((oversized zeros).entry 0)).length +
      (encodeEntry (plain.entry 1)).length by omega)
    (show (encodeEntry ((oversized zeros).entry 0)).length +
      (encodeEntry (plain.entry 1)).length ≤ 2 ^ 40 by omega)
  have shows : readSegment (encodeEntry (plain.entry 1)) =
      ([plain.entry 1], (encodeEntry (plain.entry 1)).length) := by
    decide +kernel
  have overlap := reopened_overlap (oversized_read long) shows
  rw [opened_empty] at last
  rw [← disk] at overlap
  rcases Option.map_eq_some_iff.mp overlap with ⟨spool, opened, ranges⟩
  have represented := last.represented spool opened
  have ordered : (spool.segments.map fun s => (s.firstSeq, s.count)).Pairwise
      fun a b => a.1 + a.2 ≤ b.1 := List.pairwise_map.mpr represented.increasing
  rw [ranges] at ordered
  exact absurd ordered (by decide)

/-- The record takes 4294967327 bytes. -/
theorem representation_of_long_body :
    ¬ Runs.Meets Machine.step Maintains ⟨.empty, none⟩ (oversizedCalls 4294967257) :=
  oversized_overlap (by decide)

end PiAgents.Spooling
