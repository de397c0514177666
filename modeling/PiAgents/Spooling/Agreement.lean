import PiAgents.Spooling.Recovery

/-! The agreement of the open spool with its directory, the sequence file included, over the calls
made on it. -/

namespace PiAgents.Spooling

/-- Memory and files agree, every record can be read back, and the sequence file holds the end of
the reserved block. -/
structure Agrees (disk : Disk) (spool : Spool) (log : Log) : Prop extends Layout disk spool log where
  readable : ∀ kept ∈ log, ∀ entry ∈ kept.2, entry.Fits
  inFile : Spool.readNumber disk.sequence = spool.reservedUntil
  config : 2 * spool.config.segmentBytes ≤ spool.config.maxBytes

namespace Spool

theorem overLimit_room (maxBytes incoming totalBytes : Nat) (segments : List Segment) :
    totalBytes - bytesOf (overLimit maxBytes incoming totalBytes segments).1 + incoming ≤ maxBytes ∨
      (overLimit maxBytes incoming totalBytes segments).2.length ≤ 1 := by
  induction segments generalizing totalBytes with
  | nil => exact Or.inr (Nat.zero_le 1)
  | cons first rest ih =>
      cases rest with
      | nil => exact Or.inr (Nat.le_refl 1)
      | cons second rest =>
          rw [overLimit]
          by_cases full : maxBytes < totalBytes + incoming
          · rw [if_pos full]
            have dropped : ∀ later : List Segment,
                totalBytes - bytesOf (first :: later) = totalBytes - first.bytes - bytesOf later := by
              intro later
              rw [Nat.sub_sub]
              rfl
            rw [dropped]
            exact ih (totalBytes - first.bytes)
          · rw [if_neg full]
            left
            exact Nat.le_of_not_lt full

private theorem bytesOf_singleton (segment : Segment) : bytesOf [segment] = segment.bytes :=
  Nat.add_zero _

private theorem last_of_singleton {front rest segments : List Segment}
    (split : front ++ rest = segments)
    (nonempty : rest ≠ []) (single : rest.length ≤ 1) :
    ∃ last, rest = [last] ∧ segments.getLast? = some last := by
  cases rest with
  | nil => exact absurd rfl nonempty
  | cons last later =>
      have none' : later = [] := by
        apply List.length_eq_zero_iff.mp
        rw [List.length_cons] at single
        omega
      rw [none'] at split ⊢
      refine ⟨last, rfl, ?_⟩
      rw [← split]
      exact List.getLast?_concat

/-- Room is made for what fits beside the last segment alone. -/
theorem enforceLimit_room {spool : Spool} {incoming : Nat} (filled : spool.segments ≠ [])
    (total : spool.totalBytes = bytesOf spool.segments)
    (alone : ∀ last, spool.segments.getLast? = some last →
      last.bytes + incoming ≤ spool.config.maxBytes) :
    (spool.enforceLimit incoming).2.1.totalBytes + incoming ≤ spool.config.maxBytes := by
  let split := overLimit spool.config.maxBytes incoming spool.totalBytes spool.segments
  change spool.totalBytes - bytesOf split.1 + incoming ≤ spool.config.maxBytes
  rcases overLimit_room spool.config.maxBytes incoming spool.totalBytes spool.segments with
    made | single
  · exact made
  · have parts : split.1 ++ split.2 = spool.segments := overLimit_split ..
    have remains : split.2 ≠ [] := overLimit_nonempty _ _ _ filled
    rcases last_of_singleton parts remains single with ⟨last, rest, isLast⟩
    have whole : spool.totalBytes = bytesOf split.1 + last.bytes := by
      rw [total, ← parts, bytesOf_append, rest, bytesOf_singleton]
    have enough := alone last isLast
    omega

section AppendReserved

variable {spool : Spool} {event : Event}

theorem appendReserved_config (spool : Spool) (event : Event) :
    (spool.appendReserved event).2.1.config = spool.config := by
  unfold appendReserved
  by_cases rotates : spool.needsRotation (encodeEntry (event.entry spool.nextSeq)).length = true
  · simp only [rotates, if_true, enforceLimit, rotate]
  · simp only [rotates, enforceLimit]
    rfl

theorem appendReserved_total (total : spool.totalBytes = bytesOf spool.segments)
    (config : 2 * spool.config.segmentBytes ≤ spool.config.maxBytes)
    (short : (encodeEntry (event.entry spool.nextSeq)).length ≤ spool.config.maxBytes) :
    (spool.appendReserved event).2.1.totalBytes ≤ spool.config.maxBytes := by
  unfold appendReserved
  by_cases rotates : spool.needsRotation (encodeEntry (event.entry spool.nextSeq)).length = true
  · simp only [rotates, if_true]
    have filled : (spool.rotate spool.nextSeq).2.segments ≠ [] :=
      List.append_ne_nil_of_right_ne_nil _ (List.cons_ne_nil _ _)
    apply enforceLimit_room filled
    · change spool.totalBytes = bytesOf (spool.segments ++ _)
      rw [bytesOf_append, total]
      rfl
    · intro last isLast
      have same : last = Segment.new spool.nextSeq spool.nextSeq :=
        (Option.some.inj (List.getLast?_concat.symm.trans isLast)).symm
      rw [same]
      exact (Nat.zero_add _).trans_le short
  · simp only [rotates]
    cases found : spool.segments.getLast? with
    | none =>
        rw [needsRotation, found] at rotates
        exact absurd rfl rotates
    | some last =>
        rw [needsRotation, found, Bool.or_eq_true, not_or, decide_eq_true_eq] at rotates
        have within := Nat.le_of_not_lt rotates.2
        have filled : spool.segments ≠ [] := by
          intro none'
          rw [none'] at found
          cases found
        apply enforceLimit_room filled total
        intro other isLast
        rw [found] at isLast
        cases isLast
        omega

end AppendReserved

end Spool

theorem Layout.other {disk other : Disk} {spool : Spool} {log : Log}
    (layout : Layout disk spool log) (same : other.segments = disk.segments) :
    Layout other spool log :=
  ⟨layout.ordered, layout.segments, same.trans layout.files, layout.writer, layout.total,
    layout.reserved, layout.fits⟩

namespace Agrees

variable {disk : Disk} {spool : Spool} {log : Log}

theorem recoverable (agrees : Agrees disk spool log) :
    Recoverable disk (log.map fun kept => ⟨kept.1.firstSeq, kept.2, []⟩) where
  segments := by
    rw [agrees.files, Log.files, List.map_map]
    apply List.map_congr_left
    intro kept member
    have path := (agrees.ordered.holds kept member).path
    rw [path]
    change _ = (kept.1.firstSeq, encodeAll kept.2 ++ [])
    rw [List.append_nil]
  sound := by
    intro f member
    rcases List.mem_map.mp member with ⟨kept, inLog, rfl⟩
    have holds := agrees.ordered.holds kept inLog
    refine ⟨?_, agrees.readable kept inLog, readFrame_nil⟩
    rw [holds.numbered, Segment.seqs, holds.count]
  increasing := by
    apply List.pairwise_map.mpr
    apply agrees.ordered.increasing.imp_of_mem
    intro first second inFirst _ after
    have filled := agrees.ordered.nonempty first inFirst
    have count := (agrees.ordered.holds first inFirst).count
    change first.1.firstSeq < second.1.firstSeq ∧
      first.1.firstSeq + first.2.length ≤ second.1.firstSeq
    omega
  below := by
    intro f member
    rcases List.mem_map.mp member with ⟨kept, inLog, rfl⟩
    have below := agrees.ordered.below kept inLog
    have count := (agrees.ordered.holds kept inLog).count
    have reserved := agrees.reserved
    have inFile := agrees.inFile
    change kept.1.firstSeq + kept.2.length ≤ _
    omega

theorem recovered {files : List StoredFile} (recoverable : Recoverable disk files)
    {config : SpoolConfig} (opened : (Spool.open config disk).2 = some spool) :
    ∃ front log : Log, Agrees (disk.applyAll (Spool.open config disk).1) spool log ∧
      Recoverable.markedLog files (Spool.readNumber disk.acked) = front ++ log ∧
      spool.config = config ∧
      (disk.applyAll (Spool.open config disk).1).acked = disk.acked ∧
      ∀ seq, seq ∈ log.unackedSeqs ↔ Spool.readNumber disk.acked ≤ seq ∧
        ∃ f ∈ files, ∃ entry ∈ f.entries, entry.seq = seq := by
  rcases recoverable.open_layout opened with
    ⟨front, log, layout, parts, unacked, acked, isConfig, room⟩
  rcases open_reserves config disk with ⟨blockEnd, reserves, opens⟩
  have reserved := (opens spool opened).1
  refine ⟨front, log, ⟨layout, ?_, ?_, ?_⟩, parts, isConfig, acked, unacked⟩
  · intro kept member
    have marked : kept ∈ Recoverable.markedLog files (Spool.readNumber disk.acked) := by
      rw [parts]
      exact List.mem_append_right _ member
    rcases Recoverable.markedLog_entries marked with ⟨f, inFiles, same⟩
    rw [same]
    exact (recoverable.sound f inFiles).fits
  · rw [reserves.complete, reserved]
    rfl
  · rw [isConfig]
    exact room

theorem append (agrees : Agrees disk spool log) {event : Spool.Event}
    (body : (entryBody (event.entry spool.nextSeq)).length < 2 ^ 32)
    {answer : Spool × Nat × Option Loss} (given : (spool.append event).2 = some answer) :
    ∃ front mid current reserving ready before,
      spool.append event = (reserving ++ (ready.appendReserved event).1,
        some (ready.appendReserved event).2) ∧
      ready = { spool with reservedUntil := ready.reservedUntil } ∧
      (disk.applyAll reserving).acked = disk.acked ∧
      Written (disk.applyAll reserving) ready log event front mid current before ∧
      answer.2 = (spool.nextSeq, Spool.lossOf front.segments) ∧
      Agrees (disk.applyAll (spool.append event).1) answer.1
        (mid ++ [pushed current (event.entry spool.nextSeq)]) := by
  rcases agrees.toLayout.append event with failed | ⟨reserving, ready, whole, same, room, layout, acked⟩
  · rw [failed] at given
    cases given
  · rcases layout.appendReserved room event with ⟨front, mid, current, before, written⟩
    have sameSeq : ready.nextSeq = spool.nextSeq := by
      rw [same]
    have sameConfig : ready.config = spool.config := by
      rw [same]
    have isAnswer : answer = (ready.appendReserved event).2 := by
      rw [whole] at given
      exact (Option.some.inj given).symm
    rcases append_reserves disk spool event agrees.inFile with ⟨blockEnd, reserves, appends⟩
    have reached := (appends answer given).1
    refine ⟨front, mid, current, reserving, ready, before, whole, same, acked, written, ?_, ?_⟩
    · rw [isAnswer]
      apply Prod.ext
      · exact sameSeq
      · exact written.loss
    · have after := written.layout
      rw [sameSeq] at after
      refine ⟨?_, ?_, ?_, ?_⟩
      · rw [whole, isAnswer, Disk.applyAll_append]
        exact after
      · intro kept member entry inEntries
        have old : ∀ other ∈ mid ++ [current], ∀ entry ∈ other.2, entry.Fits := by
          intro other inside
          have inOpened : other ∈ ready.opened log
              (encodeEntry (event.entry ready.nextSeq)).length := by
            rw [written.parts]
            exact List.mem_append_right _ inside
          unfold Spool.opened at inOpened
          split at inOpened
          · rcases List.mem_append.mp inOpened with inLog | new
            · exact agrees.readable other inLog
            · rw [List.mem_singleton.mp new]
              intro entry none'
              cases none'
          · exact agrees.readable other inOpened
        rcases List.mem_append.mp member with inMid | last
        · exact old kept (List.mem_append_left _ inMid) entry inEntries
        · rw [List.mem_singleton.mp last] at inEntries
          rcases List.mem_append.mp inEntries with before' | new
          · exact old current (List.mem_append_right _ (List.mem_singleton_self _)) entry before'
          · rw [List.mem_singleton.mp new]
            refine ⟨?_, body⟩
            have bound := layout.fits
            change spool.nextSeq < 2 ^ 64
            omega
      · rw [reserves.complete, agrees.inFile]
        exact reached
      · rw [isAnswer, Spool.appendReserved_config, sameConfig]
        exact agrees.config

theorem ack (agrees : Agrees disk spool log) (seq : Nat) :
    ∃ front rest : Log, log.acknowledge seq = front ++ rest ∧
      (∀ kept ∈ front, kept.1.unacked = 0) ∧
      Agrees (disk.applyAll (spool.ack seq).1) (spool.ack seq).2 rest := by
  rcases agrees.toLayout.ack seq with ⟨front, rest, parts, acked, layout⟩
  refine ⟨front, rest, parts, acked, layout, ?_, ?_, ?_⟩
  · intro kept member
    have inLog : kept ∈ log.acknowledge seq := by
      rw [parts]
      exact List.mem_append_right _ member
    rcases List.mem_map.mp inLog with ⟨before, held, rfl⟩
    exact agrees.readable before held
  · have numbers := numbers_applyAll disk (spool.ack seq).1
    have quiet : (spool.ack seq).1.filter Effect.reserves = [] := by
      unfold Spool.ack
      split
      · exact removals_quiet _
      · rfl
    rw [quiet] at numbers
    have sequence : (disk.applyAll (spool.ack seq).1).sequence = disk.sequence :=
      congrArg Prod.fst numbers
    have reserved : (spool.ack seq).2.reservedUntil = spool.reservedUntil := by
      unfold Spool.ack
      split
      · rfl
      · rfl
    rw [sequence, reserved]
    exact agrees.inFile
  · have config : (spool.ack seq).2.config = spool.config := by
      unfold Spool.ack
      split
      · rfl
      · rfl
    rw [config]
    exact agrees.config

theorem sync (agrees : Agrees disk spool log) : Agrees (disk.applyAll spool.sync) spool log :=
  ⟨agrees.toLayout.other rfl, agrees.readable, agrees.inFile, agrees.config⟩

end Agrees

namespace Machine

/-- A call that is completed. -/
def step (m : Machine) (call : Call) : Machine :=
  ⟨m.disk.applyAll (m.perform call).effects, (m.perform call).spool⟩

/-- The record that an append would write has a body whose length fits its field. -/
def Writes (m : Machine) : Call → Prop
  | .append event =>
      ∀ spool ∈ m.spool, (entryBody (event.entry spool.nextSeq)).length < 2 ^ 32
  | _ => True

/-- Without an open spool the files can be recovered; an open one agrees with them. -/
inductive Consistent : Machine → Prop where
  | stopped {disk : Disk} {files : List StoredFile} (recoverable : Recoverable disk files) :
      Consistent ⟨disk, none⟩
  | running {disk : Disk} {spool : Spool} {log : Log} (agrees : Agrees disk spool log) :
      Consistent ⟨disk, some spool⟩

theorem consistent_empty : Consistent ⟨.empty, none⟩ := .stopped recoverable_empty

theorem Consistent.recoverable {m : Machine} (consistent : m.Consistent) :
    ∃ files, Recoverable m.disk files := by
  cases consistent with
  | stopped recoverable => exact ⟨_, recoverable⟩
  | running agrees => exact ⟨_, agrees.recoverable⟩

theorem Consistent.open {m : Machine} (consistent : m.Consistent) (config : SpoolConfig) :
    (m.step (.open config)).Consistent := by
  rcases consistent.recoverable with ⟨files, recoverable⟩
  cases opened : (Spool.open config m.disk).2 with
  | some spool =>
      rcases Agrees.recovered recoverable opened with ⟨_, log, agrees, _⟩
      have after : m.step (.open config) =
          ⟨m.disk.applyAll (Spool.open config m.disk).1, some spool⟩ := by
        rw [← opened]
        rfl
      rw [after]
      exact .running agrees
  | none =>
      have after : m.step (.open config) =
          ⟨m.disk.applyAll (Spool.open config m.disk).1, none⟩ := by
        rw [← opened]
        rfl
      rw [after]
      rcases open_refused opened with nothing | recovery
      · rw [nothing]
        exact .stopped recoverable
      · rw [recovery]
        exact .stopped recoverable.clean

theorem Consistent.step {m : Machine} (consistent : m.Consistent) (call : Call)
    (writes : m.Writes call) : (m.step call).Consistent := by
  cases call with
  | «open» config => exact consistent.open config
  | append event =>
      cases consistent with
      | stopped recoverable => exact .stopped recoverable
      | @running disk spool log agrees =>
          cases given : (spool.append event).2 with
          | some answer =>
              rcases agrees.append (writes spool rfl) given with
                ⟨front, mid, current, _, _, _, _, _, _, _, _, after⟩
              have isStep : Machine.step ⟨disk, some spool⟩ (.append event) =
                  ⟨disk.applyAll (spool.append event).1, some answer.1⟩ := by
                simp only [Machine.step, perform, given, Option.map_some]
              rw [isStep]
              exact .running after
          | none =>
              have nothing : (spool.append event).1 = [] := by
                rcases agrees.toLayout.append event with failed | ⟨_, _, whole, _⟩
                · rw [failed]
                · rw [whole] at given
                  cases given
              have isStep : Machine.step ⟨disk, some spool⟩ (.append event) = ⟨disk, none⟩ := by
                simp only [Machine.step, perform, given, nothing, Option.map_none]
                rfl
              rw [isStep]
              exact .stopped agrees.recoverable
  | ack seq =>
      cases consistent with
      | stopped recoverable => exact .stopped recoverable
      | running agrees =>
          rcases agrees.ack seq with ⟨front, rest, _, _, after⟩
          exact .running after
  | sync =>
      cases consistent with
      | stopped recoverable => exact .stopped recoverable
      | running agrees => exact .running agrees.sync

end Machine

end PiAgents.Spooling
