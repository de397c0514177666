import PiAgents.Spooling.Ahead

/-! The calls in numbers: which of them an append drops and adds, what waits afterwards, what the
loss says of those that went, and that an acknowledgement takes one out. -/

namespace PiAgents.Spooling

namespace Spool

/-- A segment contains the number, acknowledged or not. -/
def contains (spool : Spool) (seq : Nat) : Bool := spool.segments.any (·.contains seq)

/-- The numbers that wait before and are in no segment after. -/
def gone (before after : Spool) : List Nat := before.waiting.filter fun seq => !after.contains seq

end Spool

theorem Spool.contains_of_waiting {spool : Spool} {seq : Nat} (waits : seq ∈ spool.waiting) :
    spool.contains seq = true := by
  rcases List.mem_flatMap.mp waits with ⟨segment, member, unacked⟩
  exact List.any_eq_true.mpr ⟨segment, member, ((segment.mem_unackedSeqs seq).mp unacked).1⟩

theorem opened_increasing {spool : Spool} {log : Log} (ordered : log.Ordered spool.nextSeq)
    (recordLen : Nat) : (spool.opened log recordLen).Pairwise fun a b =>
      a.1.firstSeq + a.1.count ≤ b.1.firstSeq := by
  unfold Spool.opened
  split
  · apply List.pairwise_append.mpr
    refine ⟨ordered.increasing, List.pairwise_singleton _ _, ?_⟩
    intro kept member new single
    rw [List.mem_singleton.mp single]
    exact ordered.below kept member
  · exact ordered.increasing

namespace Written

variable {disk : Disk} {spool : Spool} {log front mid : Log} {event : Spool.Event}
  {current : Segment × List Entry} {before : List Effect}
  (written : Written disk spool log event front mid current before)

include written

theorem front_of_log : ∃ rest, log = front ++ rest := by
  have parts := written.parts
  unfold Spool.opened at parts
  split at parts
  · rw [← List.append_assoc] at parts
    exact ⟨mid, (List.append_inj' parts rfl).1⟩
  · exact ⟨mid ++ [current], parts⟩

theorem entries_of_log : ∀ kept ∈ mid ++ [current], ∀ entry ∈ kept.2,
    ∃ old ∈ log, entry ∈ old.2 := by
  intro kept member entry inEntries
  have inOpened : kept ∈ spool.opened log (encodeEntry (event.entry spool.nextSeq)).length := by
    rw [written.parts]
    exact List.mem_append_right _ member
  unfold Spool.opened at inOpened
  split at inOpened
  · rcases List.mem_append.mp inOpened with inLog | new
    · exact ⟨kept, inLog, inEntries⟩
    · rw [List.mem_singleton.mp new] at inEntries
      cases inEntries
  · exact ⟨kept, inOpened, inEntries⟩

theorem reported (ordered : log.Ordered spool.nextSeq) :
    Reported (spool.appendReserved event).2.2.2 front := by
  rcases written.front_of_log with ⟨rest, rfl⟩
  rw [written.loss]
  exact lossOf_reported ordered.front

theorem starts_behind (ordered : log.Ordered spool.nextSeq) {seq : Nat}
    (dropped : seq ∈ front.unackedSeqs) : ∀ kept ∈ mid ++ [current], ¬ kept.1.firstSeq ≤ seq := by
  have increasing := opened_increasing ordered
    (encodeEntry (event.entry spool.nextSeq)).length
  rw [written.parts] at increasing
  have apart := (List.pairwise_append.mp increasing).2.2
  rcases (front.mem_unackedSeqs seq).mp dropped with ⟨old, inFront, unacked⟩
  have bounds := (old.1.contains_iff seq).mp ((old.1.mem_unackedSeqs seq).mp unacked).1
  intro kept member
  have after := apart old inFront kept member
  omega

theorem excludes (ordered : log.Ordered spool.nextSeq) {seq : Nat}
    (dropped : seq ∈ front.unackedSeqs) :
    (spool.appendReserved event).2.1.contains seq = false := by
  have later := written.starts_behind ordered dropped
  rw [Spool.contains, written.layout.segments, Bool.eq_false_iff]
  intro found
  rcases List.any_eq_true.mp found with ⟨segment, member, contains⟩
  rcases List.mem_map.mp member with ⟨kept, inRest, rfl⟩
  have starts := ((kept.1.contains_iff seq).mp contains).1
  rcases List.mem_append.mp inRest with older | last
  · exact later kept (List.mem_append_left _ older) starts
  · rw [List.mem_singleton.mp last] at starts
    exact later current (List.mem_append_right _ (List.mem_singleton_self _)) starts

theorem waiting_split (segments : spool.segments = log.segments) :
    spool.waiting ++ [spool.nextSeq] =
      front.unackedSeqs ++ (spool.appendReserved event).2.1.waiting := by
  rw [waiting_of_segments segments, written.layout.waiting, written.unackedSeqs]

theorem contained (segments : spool.segments = log.segments) {seq : Nat}
    (held : (spool.appendReserved event).2.1.contains seq = true) :
    spool.contains seq = true ∨ seq = spool.nextSeq := by
  have old : ∀ kept ∈ mid ++ [current], kept.1.contains seq = true →
      spool.contains seq = true := by
    intro kept member contains
    have inOpened : kept ∈ spool.opened log
        (encodeEntry (event.entry spool.nextSeq)).length := by
      rw [written.parts]
      exact List.mem_append_right _ member
    unfold Spool.opened at inOpened
    rw [Spool.contains, segments]
    split at inOpened
    · rcases List.mem_append.mp inOpened with inLog | new
      · exact List.any_eq_true.mpr ⟨kept.1, List.mem_map_of_mem inLog, contains⟩
      · rw [List.mem_singleton.mp new] at contains
        have bounds := (Segment.contains_iff _ seq).mp contains
        change spool.nextSeq ≤ seq ∧ seq < spool.nextSeq + 0 at bounds
        omega
    · exact List.any_eq_true.mpr ⟨kept.1, List.mem_map_of_mem inOpened, contains⟩
  rw [Spool.contains, written.layout.segments] at held
  rcases List.any_eq_true.mp held with ⟨segment, member, contains⟩
  rcases List.mem_map.mp member with ⟨kept, inRest, rfl⟩
  rcases List.mem_append.mp inRest with older | last
  · exact Or.inl (old kept (List.mem_append_left _ older) contains)
  · rw [List.mem_singleton.mp last] at contains
    have bounds := ((current.1.push _ _).contains_iff seq).mp contains
    rw [Segment.push_firstSeq, Segment.push_count] at bounds
    have ends := written.ends
    by_cases isLast : seq = spool.nextSeq
    · exact Or.inr isLast
    · left
      apply old current (List.mem_append_right _ (List.mem_singleton_self _))
      rw [Segment.contains_iff]
      omega

theorem gone (ordered : log.Ordered spool.nextSeq) (segments : spool.segments = log.segments) :
    spool.gone (spool.appendReserved event).2.1 = front.unackedSeqs := by
  let absent := fun seq => !(spool.appendReserved event).2.1.contains seq
  have dropped : front.unackedSeqs.filter absent = front.unackedSeqs := by
    apply List.filter_eq_self.mpr
    intro seq member
    change (!_) = true
    rw [written.excludes ordered member]
    rfl
  have held : (spool.appendReserved event).2.1.waiting.filter absent = [] := by
    apply List.filter_eq_nil_iff.mpr
    intro seq member
    change ¬ (!_) = true
    rw [Spool.contains_of_waiting member]
    exact Bool.false_ne_true
  have isLast : spool.nextSeq ∈ (spool.appendReserved event).2.1.waiting := by
    have last : spool.nextSeq ∈ Log.unackedSeqs
        (mid ++ [pushed current (event.entry spool.nextSeq)]) := by
      rw [Log.unackedSeqs_append, Log.unackedSeqs_singleton]
      change _ ∈ _ ++ (current.1.push _ _).unackedSeqs
      rw [Segment.unackedSeqs_push written.holds.sound, written.ends]
      exact List.mem_append_right _ (List.mem_append_right _ (List.mem_singleton_self _))
    rw [written.layout.waiting]
    exact last
  have new : [spool.nextSeq].filter absent = [] := by
    apply List.filter_eq_nil_iff.mpr
    intro seq member
    rw [List.mem_singleton.mp member]
    exact List.filter_eq_nil_iff.mp held _ isLast
  have parts := congrArg (List.filter absent) (written.waiting_split segments)
  rw [List.filter_append, List.filter_append, dropped, held, new, List.append_nil,
    List.append_nil] at parts
  exact parts

end Written

/-- What an append does to the numbers: `dropped` is the front of the log that went. -/
structure Appends (spool : Spool) (answer : Spool × Nat × Option Loss) (log dropped : Log) :
    Prop where
  seq : answer.2.1 = spool.nextSeq
  next : answer.1.nextSeq = spool.nextSeq + 1
  front : ∃ rest, log = dropped ++ rest
  waiting : spool.waiting ++ [spool.nextSeq] = dropped.unackedSeqs ++ answer.1.waiting
  gone : spool.gone answer.1 = dropped.unackedSeqs
  excludes : ∀ seq ∈ dropped.unackedSeqs, answer.1.contains seq = false
  contained : ∀ seq, answer.1.contains seq = true →
    spool.contains seq = true ∨ seq = spool.nextSeq
  reported : Reported answer.2.2 dropped

theorem Written.appends {disk : Disk} {spool : Spool} {log front mid : Log} {event : Spool.Event}
    {current : Segment × List Entry} {before : List Effect}
    (written : Written disk spool log event front mid current before)
    (ordered : log.Ordered spool.nextSeq) (segments : spool.segments = log.segments) :
    Appends spool (spool.appendReserved event).2 log front where
  seq := rfl
  next := appendReserved_nextSeq spool event
  front := written.front_of_log
  waiting := written.waiting_split segments
  gone := written.gone ordered segments
  excludes _ dropped := written.excludes ordered dropped
  contained _ held := written.contained segments held
  reported := written.reported ordered

theorem Appends.reserved {spool ready : Spool} {answer : Spool × Nat × Option Loss}
    {log dropped : Log} (same : ready = { spool with reservedUntil := ready.reservedUntil })
    (appends : Appends ready answer log dropped) : Appends spool answer log dropped := by
  rw [same] at appends
  exact ⟨appends.seq, appends.next, appends.front, appends.waiting, appends.gone,
    appends.excludes, appends.contained, appends.reported⟩

theorem Layout.appends {disk : Disk} {spool : Spool} {log : Log} (layout : Layout disk spool log)
    {event : Spool.Event} {answer : Spool × Nat × Option Loss}
    (given : (spool.append event).2 = some answer) :
    ∃ dropped after : Log, Appends spool answer log dropped ∧
      (∀ kept ∈ after, ∀ entry ∈ kept.2, entry = event.entry spool.nextSeq ∨
        ∃ old ∈ log, entry ∈ old.2) ∧
      Layout (disk.applyAll (spool.append event).1) answer.1 after := by
  rcases layout.append event with failed | ⟨reserving, ready, whole, same, room, ready', _⟩
  · rw [failed] at given
    cases given
  · rcases ready'.appendReserved room event with ⟨front, mid, current, before, written⟩
    have isAnswer : (ready.appendReserved event).2 = answer := by
      rw [whole] at given
      exact Option.some.inj given
    have sameSeq : ready.nextSeq = spool.nextSeq := by
      rw [same]
    have appends := written.appends ready'.ordered ready'.segments
    have after := written.layout
    rw [isAnswer] at appends
    rw [sameSeq, isAnswer, ← Disk.applyAll_append] at after
    refine ⟨front, mid ++ [pushed current (event.entry spool.nextSeq)], appends.reserved same,
      ?_, ?_⟩
    · intro kept member entry inEntries
      rcases List.mem_append.mp member with older | last
      · exact Or.inr (written.entries_of_log kept (List.mem_append_left _ older) entry inEntries)
      · rw [List.mem_singleton.mp last] at inEntries
        rcases List.mem_append.mp inEntries with held | new
        · exact Or.inr (written.entries_of_log current
            (List.mem_append_right _ (List.mem_singleton_self _)) entry held)
        · exact Or.inl (List.mem_singleton.mp new)
    · rw [whole]
      exact after

theorem sorted_head_le {numbers : List Nat} (sorted : numbers.Pairwise (· < ·)) {first : Nat}
    (isFirst : numbers.head? = some first) : ∀ seq ∈ numbers, first ≤ seq := by
  cases numbers with
  | nil => cases isFirst
  | cons head rest =>
      cases isFirst
      intro seq member
      rcases List.mem_cons.mp member with rfl | later
      · exact Nat.le_refl _
      · exact Nat.le_of_lt ((List.pairwise_cons.mp sorted).1 seq later)

theorem sorted_le_last {numbers : List Nat} (sorted : numbers.Pairwise (· < ·)) {last : Nat}
    (isLast : numbers.getLast? = some last) : ∀ seq ∈ numbers, seq ≤ last := by
  rcases List.getLast?_eq_some_iff.mp isLast with ⟨front, rfl⟩
  intro seq member
  rcases List.mem_append.mp member with before | same
  · exact Nat.le_of_lt ((List.pairwise_append.mp sorted).2.2 seq before last
      (List.mem_singleton_self _))
  · exact Nat.le_of_eq (List.mem_singleton.mp same)

namespace Appends

variable {spool : Spool} {answer : Spool × Nat × Option Loss} {log dropped : Log}
  (appends : Appends spool answer log dropped)

include appends

theorem lost : (answer.2.2.toList.map fun l => (l, spool.gone answer.1)).flatMap Prod.snd =
    dropped.unackedSeqs := by
  cases given : answer.2.2 with
  | none => exact (appends.reported.1 given).symm
  | some loss =>
      rw [Option.toList_some, List.map_singleton, List.flatMap_singleton, appends.gone]

theorem dropped_waited : ∀ seq ∈ dropped.unackedSeqs, seq ∈ spool.waiting := by
  rw [← appends.gone]
  intro seq member
  exact List.mem_of_mem_filter member

theorem waits {seq : Nat} (waited : seq ∈ spool.waiting) :
    seq ∈ dropped.unackedSeqs ∨ seq ∈ answer.1.waiting := by
  apply List.mem_append.mp
  rw [← appends.waiting]
  exact List.mem_append_left _ waited

theorem waited {seq : Nat} (waits : seq ∈ answer.1.waiting) :
    seq ∈ spool.waiting ∨ seq = spool.nextSeq := by
  have inWhole : seq ∈ spool.waiting ++ [spool.nextSeq] := by
    rw [appends.waiting]
    exact List.mem_append_right _ waits
  exact (List.mem_append.mp inWhole).imp_right List.mem_singleton.mp

theorem new_waits (below : ∀ seq ∈ spool.waiting, seq < spool.nextSeq) :
    spool.nextSeq ∈ answer.1.waiting := by
  have inWhole : spool.nextSeq ∈ spool.waiting ++ [spool.nextSeq] :=
    List.mem_append_right _ (List.mem_singleton_self _)
  rw [appends.waiting] at inWhole
  refine (List.mem_append.mp inWhole).resolve_left ?_
  intro dropped'
  exact Nat.lt_irrefl _ (below _ (appends.dropped_waited _ dropped'))

theorem dropped_apart {seq : Nat} (dropped' : seq ∈ dropped.unackedSeqs) :
    seq ∉ answer.1.waiting := by
  intro waits
  have held := Spool.contains_of_waiting waits
  rw [appends.excludes seq dropped'] at held
  cases held

end Appends

/-- The numbers that wait are in order and below the next one. -/
structure InOrder (spool : Spool) : Prop where
  sorted : spool.waiting.Pairwise (· < ·)
  below : ∀ seq ∈ spool.waiting, seq < spool.nextSeq

theorem Layout.inOrder {disk : Disk} {spool : Spool} {log : Log} (layout : Layout disk spool log) :
    InOrder spool := by
  constructor
  · rw [layout.waiting]
    exact layout.ordered.unackedSeqs_sorted
  · rw [layout.waiting]
    exact layout.ordered.unackedSeqs_below

theorem InOrder.dropped_sorted {spool : Spool} {answer : Spool × Nat × Option Loss}
    {log dropped : Log} (inOrder : InOrder spool) (appends : Appends spool answer log dropped) :
    dropped.unackedSeqs.Pairwise (· < ·) := by
  rw [← appends.gone]
  exact inOrder.sorted.sublist List.filter_sublist

/-- What an acknowledgement does to the numbers. -/
structure Acknowledges (spool : Spool) (seq : Nat) (after : Spool) : Prop where
  next : after.nextSeq = spool.nextSeq
  waiting : after.waiting = spool.waiting.erase seq
  contained : ∀ other, after.contains other = true → spool.contains other = true

theorem Layout.acknowledges {disk : Disk} {spool : Spool} {log : Log}
    (layout : Layout disk spool log) (seq : Nat) : Acknowledges spool seq (spool.ack seq).2 := by
  rcases layout.ack seq with ⟨front, rest, parts, acked, after⟩
  have ordered := layout.ordered.acknowledge seq
  rw [parts] at ordered
  constructor
  · unfold Spool.ack
    split
    · rfl
    · rfl
  · rw [after.waiting, layout.waiting, ← layout.ordered.acknowledge_unackedSeqs seq, parts,
      Log.unackedSeqs_append, ordered.front.unackedSeqs_of_acked acked, List.nil_append]
  · intro other held
    rw [Spool.contains, after.segments] at held
    rcases List.any_eq_true.mp held with ⟨segment, member, contains⟩
    rcases List.mem_map.mp member with ⟨kept, inRest, rfl⟩
    have inWhole : kept ∈ log.acknowledge seq := by
      rw [parts]
      exact List.mem_append_right _ inRest
    rcases List.mem_map.mp inWhole with ⟨old, inLog, rfl⟩
    rw [Spool.contains, layout.segments]
    refine List.any_eq_true.mpr ⟨old.1, List.mem_map_of_mem inLog, ?_⟩
    by_cases marked : old.1.contains seq = true
    · simp only [marked, if_true] at contains
      exact contains
    · simp only [marked] at contains
      exact contains

end PiAgents.Spooling
