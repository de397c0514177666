import PiAgents.Spooling.Layout

/-! The unacknowledged numbers of a log: what an append and an acknowledgement do to them, and that
a loss reports those of the segments dropped. -/

namespace PiAgents.Spooling

def Log.unackedSeqs (log : Log) : List Nat := log.flatMap fun kept => kept.1.unackedSeqs

@[simp] theorem Log.unackedSeqs_nil : Log.unackedSeqs [] = [] := rfl

@[simp] theorem Log.unackedSeqs_append (first second : Log) :
    Log.unackedSeqs (first ++ second) = first.unackedSeqs ++ second.unackedSeqs :=
  List.flatMap_append

@[simp] theorem Log.unackedSeqs_singleton (kept : Segment × List Entry) :
    Log.unackedSeqs [kept] = kept.1.unackedSeqs := by
  rw [Log.unackedSeqs, List.flatMap_cons, List.flatMap_nil, List.append_nil]

theorem Log.mem_unackedSeqs (log : Log) (seq : Nat) :
    seq ∈ log.unackedSeqs ↔ ∃ kept ∈ log, seq ∈ kept.1.unackedSeqs :=
  List.mem_flatMap

namespace Log.Ordered

variable {log : Log} {nextSeq : Nat}

theorem unackedSeqs_below (ordered : log.Ordered nextSeq) :
    ∀ seq ∈ log.unackedSeqs, seq < nextSeq := by
  intro seq member
  rcases (log.mem_unackedSeqs seq).mp member with ⟨kept, inLog, unacked⟩
  have bounds := (kept.1.contains_iff seq).mp ((kept.1.mem_unackedSeqs seq).mp unacked).1
  have below := ordered.below kept inLog
  omega

theorem unackedSeqs_sorted (ordered : log.Ordered nextSeq) :
    log.unackedSeqs.Pairwise (· < ·) := by
  induction log with
  | nil => exact List.Pairwise.nil
  | cons kept rest ih =>
      apply List.pairwise_append.mpr
      refine ⟨kept.1.unackedSeqs_sorted, ih ordered.tail, ?_⟩
      intro seq member later laterMember
      rcases (Log.mem_unackedSeqs rest later).mp laterMember with ⟨other, inRest, unacked⟩
      have bounds := (kept.1.contains_iff seq).mp ((kept.1.mem_unackedSeqs seq).mp member).1
      have laterBounds :=
        (other.1.contains_iff later).mp ((other.1.mem_unackedSeqs later).mp unacked).1
      have after := (List.pairwise_cons.mp ordered.increasing).1 other inRest
      omega

theorem unackedSeqs_length (ordered : log.Ordered nextSeq) :
    log.unackedSeqs.length = (log.segments.map (·.unacked)).sum := by
  induction log with
  | nil => rfl
  | cons kept rest ih =>
      change (kept.1.unackedSeqs ++ Log.unackedSeqs rest).length =
        kept.1.unacked + ((Log.segments rest).map (·.unacked)).sum
      have sound := (ordered.holds kept (List.mem_cons_self ..)).sound
      rw [List.length_append, ih ordered.tail, sound.unacked]

theorem acknowledge_unackedSeqs (ordered : log.Ordered nextSeq) (seq : Nat) :
    (log.acknowledge seq).unackedSeqs = log.unackedSeqs.erase seq := by
  induction log with
  | nil => rfl
  | cons kept rest ih =>
      change (if kept.1.contains seq then kept.1.setAcked seq else kept.1).unackedSeqs ++
        (Log.acknowledge rest seq).unackedSeqs = (kept.1.unackedSeqs ++ Log.unackedSeqs rest).erase seq
      by_cases held : kept.1.contains seq = true
      · have sound := (ordered.holds kept (List.mem_cons_self ..)).sound
        rw [if_pos held, acknowledge_unknown (ordered.later_excludes held),
          Segment.unackedSeqs_setAcked sound held]
        have absent : seq ∉ Log.unackedSeqs rest := by
          intro later
          rcases (Log.mem_unackedSeqs rest seq).mp later with ⟨other, inRest, unacked⟩
          have excluded := ordered.later_excludes held other inRest
          rw [((other.1.mem_unackedSeqs seq).mp unacked).1] at excluded
          cases excluded
        by_cases here : seq ∈ kept.1.unackedSeqs
        · rw [List.erase_append_left _ here]
        · rw [List.erase_append_right _ here, List.erase_of_not_mem here,
            List.erase_of_not_mem absent]
      · have absent : seq ∉ kept.1.unackedSeqs :=
          fun member => held ((kept.1.mem_unackedSeqs seq).mp member).1
        rw [if_neg held, ih ordered.tail, List.erase_append_right _ absent]

theorem unackedSeqs_of_acked (ordered : log.Ordered nextSeq)
    (acked : ∀ kept ∈ log, kept.1.unacked = 0) : log.unackedSeqs = [] := by
  apply List.flatMap_eq_nil_iff.mpr
  intro kept member
  have counted := (ordered.holds kept member).sound.unacked
  rw [acked kept member] at counted
  exact List.length_eq_zero_iff.mp counted.symm

theorem front {first second : Log} (ordered : Log.Ordered (first ++ second) nextSeq) :
    first.Ordered nextSeq where
  holds kept member := ordered.holds kept (List.mem_append_left _ member)
  nonempty kept member := ordered.nonempty kept (List.mem_append_left _ member)
  increasing := (List.pairwise_append.mp ordered.increasing).1
  below kept member := ordered.below kept (List.mem_append_left _ member)

end Log.Ordered

namespace Layout

variable {disk : Disk} {spool : Spool} {log : Log}

theorem unacked (layout : Layout disk spool log) : spool.unacked = log.unackedSeqs.length := by
  rw [layout.ordered.unackedSeqs_length, Spool.unacked, layout.segments]

theorem dropAckedFront_unackedSeqs (layout : Layout disk spool log) :
    ∃ front rest : Log, log = front ++ rest ∧ rest.unackedSeqs = log.unackedSeqs ∧
      Layout (disk.applyAll spool.dropAckedFront.1) spool.dropAckedFront.2 rest := by
  rcases layout.dropAckedFront with ⟨front, rest, rfl, acked, _, dropped⟩
  refine ⟨front, rest, rfl, ?_, dropped⟩
  rw [Log.unackedSeqs_append, layout.ordered.front.unackedSeqs_of_acked acked, List.nil_append]

end Layout

theorem Written.unackedSeqs {disk : Disk} {spool : Spool} {log front mid : Log}
    {event : Spool.Event} {current : Segment × List Entry} {before : List Effect}
    (written : Written disk spool log event front mid current before) :
    log.unackedSeqs ++ [spool.nextSeq] = front.unackedSeqs ++
      Log.unackedSeqs (mid ++ [pushed current (event.entry spool.nextSeq)]) := by
  have active : (spool.opened log
      (encodeEntry (event.entry spool.nextSeq)).length).unackedSeqs = log.unackedSeqs := by
    rw [Spool.opened]
    split
    · rw [Log.unackedSeqs_append, Log.unackedSeqs_singleton]
      exact List.append_nil _
    · rfl
  have last : (pushed current (event.entry spool.nextSeq)).1.unackedSeqs =
      current.1.unackedSeqs ++ [spool.nextSeq] := by
    rw [← written.ends]
    exact Segment.unackedSeqs_push written.holds.sound _ _
  rw [← active, written.parts]
  simp only [Log.unackedSeqs_append, Log.unackedSeqs_singleton, last, List.append_assoc]

/-- What a loss says of the segments that were dropped. -/
structure Loss.Reports (loss : Loss) (dropped : Log) : Prop where
  count : loss.count = dropped.unackedSeqs.length
  first : dropped.unackedSeqs.head? = some loss.firstSeq
  last : dropped.unackedSeqs.getLast? = some loss.lastSeq
  times : ∀ kept ∈ dropped, 0 < kept.1.unacked → ∀ entry ∈ kept.2,
    loss.firstEventTimeMs ≤ entry.eventTimeMs ∧ entry.eventTimeMs ≤ loss.lastEventTimeMs

theorem lossOf_concat (dropped : List Segment) (segment : Segment) :
    Spool.lossOf (dropped ++ [segment]) = Spool.addLoss (Spool.lossOf dropped) segment :=
  List.foldl_concat ..

theorem addLoss_acked {loss : Option Loss} {segment : Segment} (acked : segment.unacked = 0) :
    Spool.addLoss loss segment = loss := if_pos acked

section

variable {segment : Segment} {first last : Nat}

theorem addLoss_first (some' : segment.unacked ≠ 0)
    (isFirst : segment.unackedSeqs.head? = some first)
    (isLast : segment.unackedSeqs.getLast? = some last) :
    Spool.addLoss none segment = some ⟨0 + segment.unacked, first, last,
      min segment.minTime segment.minTime, max segment.maxTime segment.maxTime⟩ := by
  rw [Spool.addLoss, if_neg some', isFirst, isLast]
  rfl

theorem addLoss_later (loss : Loss) (some' : segment.unacked ≠ 0)
    (isFirst : segment.unackedSeqs.head? = some first)
    (isLast : segment.unackedSeqs.getLast? = some last) :
    Spool.addLoss (some loss) segment = some ⟨loss.count + segment.unacked, loss.firstSeq, last,
      min loss.firstEventTimeMs segment.minTime, max loss.lastEventTimeMs segment.maxTime⟩ := by
  rw [Spool.addLoss, if_neg some', isFirst, isLast]
  rfl

end

def Reported (loss : Option Loss) (dropped : Log) : Prop :=
  (loss = none → dropped.unackedSeqs = []) ∧ ∀ l, loss = some l → l.Reports dropped

theorem Reported.acked {loss : Option Loss} {front : Log} (before : Reported loss front)
    {kept : Segment × List Entry} (acked : kept.1.unacked = 0) (none' : kept.1.unackedSeqs = []) :
    Reported loss (front ++ [kept]) := by
  have same : Log.unackedSeqs (front ++ [kept]) = Log.unackedSeqs front := by
    rw [Log.unackedSeqs_append, Log.unackedSeqs_singleton, none', List.append_nil]
  constructor
  · intro nothing
    rw [same, before.1 nothing]
  · intro l isLoss
    have reports := before.2 l isLoss
    constructor
    · rw [same, reports.count]
    · rw [same, reports.first]
    · rw [same, reports.last]
    · intro other member waiting
      rcases List.mem_append.mp member with old | new
      · exact reports.times other old waiting
      · rw [List.mem_singleton.mp new, acked] at waiting
        cases waiting

theorem unackedSeqs_ends {segment : Segment} (sound : segment.Sound)
    (some' : segment.unacked ≠ 0) : ∃ first last,
      segment.unackedSeqs.head? = some first ∧ segment.unackedSeqs.getLast? = some last := by
  have nonempty : segment.unackedSeqs ≠ [] := by
    intro none'
    apply some'
    rw [sound.unacked, none']
    rfl
  exact ⟨_, _, List.head?_eq_some_head nonempty, List.getLast?_eq_some_getLast nonempty⟩

theorem Reported.first {kept : Segment × List Entry} (holds : Holds kept.1 kept.2)
    (some' : kept.1.unacked ≠ 0) {front : Log} (nothing : front.unackedSeqs = [])
    (quiet : ∀ other ∈ front, other.1.unacked = 0) :
    Reported (Spool.addLoss none kept.1) (front ++ [kept]) := by
  have same : Log.unackedSeqs (front ++ [kept]) = kept.1.unackedSeqs := by
    rw [Log.unackedSeqs_append, Log.unackedSeqs_singleton, nothing, List.nil_append]
  rcases unackedSeqs_ends holds.sound some' with ⟨first, last, isFirst, isLast⟩
  rw [addLoss_first some' isFirst isLast]
  constructor
  · intro absurd'
    cases absurd'
  · intro l isLoss
    cases isLoss
    constructor
    · rw [same, Nat.zero_add, holds.sound.unacked]
    · rw [same, isFirst]
    · rw [same, isLast]
    · intro other member waiting entry inEntries
      rcases List.mem_append.mp member with old | new
      · rw [quiet other old] at waiting
        cases waiting
      · rw [List.mem_singleton.mp new] at inEntries
        have within := holds.times entry inEntries
        exact ⟨Int64.le_trans Std.min_le_left within.1,
          Int64.le_trans within.2 (time_le_max_left _ _)⟩

theorem Reported.later {loss : Loss} {front : Log} (reports : loss.Reports front)
    {kept : Segment × List Entry} (holds : Holds kept.1 kept.2) (some' : kept.1.unacked ≠ 0) :
    Reported (Spool.addLoss (some loss) kept.1) (front ++ [kept]) := by
  rcases unackedSeqs_ends holds.sound some' with ⟨first, last, isFirst, isLast⟩
  rw [addLoss_later loss some' isFirst isLast]
  constructor
  · intro absurd'
    cases absurd'
  · intro l isLoss
    cases isLoss
    constructor
    · rw [Log.unackedSeqs_append, Log.unackedSeqs_singleton, List.length_append, reports.count,
        holds.sound.unacked]
    · rw [Log.unackedSeqs_append, List.head?_append, reports.first]
      rfl
    · rw [Log.unackedSeqs_append, Log.unackedSeqs_singleton, List.getLast?_append, isLast]
      rfl
    · intro other member waiting entry inEntries
      rcases List.mem_append.mp member with old | new
      · have within := reports.times other old waiting entry inEntries
        exact ⟨Int64.le_trans Std.min_le_left within.1,
          Int64.le_trans within.2 (time_le_max_left _ _)⟩
      · rw [List.mem_singleton.mp new] at inEntries
        have within := holds.times entry inEntries
        exact ⟨Int64.le_trans Std.min_le_right within.1,
          Int64.le_trans within.2 (time_le_max_right _ _)⟩

/-- Dropping nothing unacknowledged reports no loss, and a loss reports all that was. -/
theorem lossOf_reported {dropped : Log} {nextSeq : Nat} (ordered : dropped.Ordered nextSeq) :
    Reported (Spool.lossOf dropped.segments) dropped := by
  induction dropped using List.reverseRecOn with
  | nil =>
      refine ⟨fun _ => rfl, ?_⟩
      intro loss reported
      cases reported
  | append_singleton front kept ih =>
      have before := ih ordered.front
      have holds := ordered.holds kept (List.mem_append_right _ (List.mem_singleton_self _))
      have parts : Log.segments (front ++ [kept]) = Log.segments front ++ [kept.1] :=
        List.map_append
      rw [parts, lossOf_concat]
      by_cases acked : kept.1.unacked = 0
      · have none' : kept.1.unackedSeqs = [] := by
          apply List.length_eq_zero_iff.mp
          rw [← holds.sound.unacked, acked]
        rw [addLoss_acked acked]
        exact before.acked acked none'
      · cases found : Spool.lossOf (Log.segments front) with
        | none =>
            have nothing := before.1 found
            apply Reported.first holds acked nothing
            intro other member
            have counted := (ordered.front.holds other member).sound.unacked
            rw [List.flatMap_eq_nil_iff.mp nothing other member] at counted
            exact counted
        | some loss => exact Reported.later (before.2 loss found) holds acked

end PiAgents.Spooling
