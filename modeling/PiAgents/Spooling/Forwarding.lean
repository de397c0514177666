import PiAgents.Spooling.Pumping

/-! The forwarder in steps: what waits is ahead of the position or with the publisher, sending is in
order, and what is sent is what was written. -/

namespace PiAgents.Spooling

open Capture (HealthKind FlowRecord)
open Forwarder (queued)

/-- The records that submitting an event writes have bodies whose length fits its field: that of the
event, and that of the report when room for it has dropped something. -/
def Forwarder.Records (f : Forwarder) (event : Spool.Event) (nowMs : Int64) : Prop :=
  (entryBody (event.entry f.spool.nextSeq)).length < 2 ^ 32 ∧
    ∀ after seq loss, f.append event = some (after, seq, some loss) →
      (entryBody ((lossReport f.gatewayId (Loss.addTo f.cumulativeLoss loss) nowMs).entry
        after.spool.nextSeq)).length < 2 ^ 32

instance (f : Forwarder) (event : Spool.Event) (nowMs : Int64) : Decidable (f.Records event nowMs) :=
  decidable_of_iff ((entryBody (event.entry f.spool.nextSeq)).length < 2 ^ 32 ∧
    ∀ answer ∈ f.append event, ∀ loss ∈ answer.2.2,
      (entryBody ((lossReport f.gatewayId (Loss.addTo f.cumulativeLoss loss) nowMs).entry
        answer.1.spool.nextSeq)).length < 2 ^ 32) <| by
    constructor
    · intro fits
      exact ⟨fits.1, fun after seq loss given => fits.2 _ given loss rfl⟩
    · rintro ⟨body, report⟩
      refine ⟨body, ?_⟩
      rintro ⟨after, seq, _⟩ given loss rfl
      exact report after seq loss given

/-- The records that submitting an event writes. -/
def Forwarder.writes (f : Forwarder) (event : Spool.Event) (nowMs : Int64) : List Entry :=
  match f.append event with
  | none => []
  | some (after, seq, loss) =>
      event.entry seq :: loss.toList.map fun loss =>
        (lossReport f.gatewayId (Loss.addTo f.cumulativeLoss loss) nowMs).entry after.spool.nextSeq

structure Attempt where
  seq : Nat
  waiting : List Nat
  sent : List Nat

def attempts (waiting : List Nat) : List Nat → List Send → List Attempt
  | _, [] => []
  | sent, send :: rest =>
      ⟨send.entry.seq, waiting, sent⟩ :: attempts waiting (sent ++ queued [send]) rest

structure ForwardRun where
  forwarder : Option Forwarder
  /-- The numbers of the queued sends whose report has not been processed, one for each send. -/
  outstanding : List Nat
  sends : List Send
  delivered : List Nat
  lost : List Nat
  /-- What waited at the start and what was appended. -/
  entered : List Nat
  /-- The records of the directory at the start and those written since. -/
  written : List Entry
  attempts : List Attempt

inductive ForwardStep where
  | submitFlow (record : FlowRecord) (nowMs : Int64)
  | submitHealth (component : String) (kind : HealthKind) (count : Nat) (sequences : Nat × Nat)
      (eventTimesMs : Int64 × Int64) (detail : String) (nowMs : Int64)
  /-- The publisher reports, and answers the sends. -/
  | pump (budget : Nat) (reports : List (Nat × Bool)) (answers : Nat → SendOutcome)
  | sync

namespace ForwardRun

def sent (h : ForwardRun) : List Nat := queued h.sends

def start (gatewayId : String) (config : SpoolConfig) (disk : Disk) : ForwardRun where
  forwarder := (Spool.open config disk).2.map fun spool =>
    .new gatewayId (disk.applyAll (Spool.open config disk).1) spool
  outstanding := []
  sends := []
  delivered := []
  lost := []
  entered := ((Spool.open config disk).2.map Spool.waiting).getD []
  written := (disk.applyAll (Spool.open config disk).1).entries
  attempts := []

/-- Without numbers left the forwarder stops. -/
def submitted (h : ForwardRun) (f : Forwarder) (writes : List Entry) :
    Option (Forwarder × Nat) → ForwardRun
  | none => { h with forwarder := none }
  | some (after, _) =>
      let new := writes.map (·.seq)
      { h with
        forwarder := some after
        lost := h.lost ++ (f.spool.waiting ++ new).filter (!after.spool.contains ·)
        entered := h.entered ++ new
        written := h.written ++ writes }

def pumped (h : ForwardRun) (reports : List (Nat × Bool)) (after : Forwarder × List Send) :
    ForwardRun :=
  { h with
    forwarder := some after.1
    outstanding := h.outstanding.diff (reports.map (·.1)) ++ queued after.2
    sends := h.sends ++ after.2
    delivered := h.delivered ++ acknowledged reports
    attempts := h.attempts ++ PiAgents.Spooling.attempts after.1.spool.waiting h.sent after.2 }

def step (h : ForwardRun) (event : ForwardStep) : ForwardRun :=
  match h.forwarder with
  | none => h
  | some f =>
      match event with
      | .submitFlow record nowMs =>
          h.submitted f (f.writes (flowEvent f.gatewayId record nowMs) nowMs)
            (f.submitFlow record nowMs)
      | .submitHealth component kind count sequences eventTimesMs detail nowMs =>
          h.submitted f
            (f.writes (healthEvent f.gatewayId component kind count sequences eventTimesMs detail
              nowMs) nowMs)
            (f.submitHealth component kind count sequences eventTimesMs detail nowMs)
      | .pump budget reports answers => h.pumped reports (f.pump budget reports answers)
      | .sync => { h with forwarder := some f.sync }

def Records (h : ForwardRun) (event : ForwardStep) : Prop :=
  match h.forwarder with
  | none => True
  | some f =>
      match event with
      | .submitFlow record nowMs => f.Records (flowEvent f.gatewayId record nowMs) nowMs
      | .submitHealth component kind count sequences eventTimesMs detail nowMs =>
          f.Records (healthEvent f.gatewayId component kind count sequences eventTimesMs detail
            nowMs) nowMs
      | .pump _ _ _ => True
      | .sync => True

instance (h : ForwardRun) (event : ForwardStep) : Decidable (h.Records event) := by
  unfold Records
  split
  · exact isTrue trivial
  · split <;> infer_instance

def AtCursor (f : Forwarder) (seq : Nat) : Prop :=
  seq ∈ (f.spool.read f.disk f.cursor f.spool.unacked).1.map (·.2.seq)

/-- Nothing is stuck or skipped. -/
structure Unstuck (h : ForwardRun) : Prop where
  ahead : ∀ f, h.forwarder = some f → ∀ seq ∈ f.spool.waiting,
    AtCursor f seq ∨ seq ∈ h.outstanding
  acknowledged : ∀ f, h.forwarder = some f → ∀ seq ∈ h.entered,
    seq ∈ f.spool.waiting ∨ seq ∈ h.delivered ∨ seq ∈ h.lost ∧ f.spool.contains seq = false
  ordered : ∀ attempt ∈ h.attempts, ∀ seq ∈ attempt.waiting, seq < attempt.seq →
    seq ∈ attempt.sent

end ForwardRun

/-! What a submission does to the numbers. -/

/-- Numbers are appended behind those there; those that waited still wait or are gone. -/
structure Grows (before after : Spool) : Prop where
  next : before.nextSeq ≤ after.nextSeq
  waited : ∀ seq ∈ after.waiting, seq ∈ before.waiting ∨ before.nextSeq ≤ seq
  waits : ∀ seq, (seq ∈ before.waiting ∨ before.nextSeq ≤ seq ∧ seq < after.nextSeq) →
    seq ∈ after.waiting ∨ after.contains seq = false
  contained : ∀ seq, after.contains seq = true → before.contains seq = true ∨ before.nextSeq ≤ seq

namespace Grows

variable {before middle after : Spool}

theorem refl (spool : Spool) : Grows spool spool where
  next := Nat.le_refl _
  waited _ member := Or.inl member
  waits _ there := there.elim Or.inl fun bounds => absurd bounds.2 (Nat.not_lt.mpr bounds.1)
  contained _ held := Or.inl held

theorem of_appends {answer : Spool × Nat × Option Loss} {log dropped : Log}
    (inOrder : InOrder before) (appends : Appends before answer log dropped) :
    Grows before answer.1 where
  next := by
    rw [appends.next]
    exact Nat.le_succ _
  waited seq waits :=
    (appends.waited waits).imp_right fun same => Nat.le_of_eq same.symm
  waits seq there := by
    rw [appends.next] at there
    rcases there with waited | bounds
    · exact (appends.waits waited).symm.imp_right (appends.excludes seq)
    · have same : seq = before.nextSeq := by omega
      rw [same]
      exact Or.inl (appends.new_waits inOrder.below)
  contained seq held :=
    (appends.contained seq held).imp_right fun same => Nat.le_of_eq same.symm

theorem trans (inOrder : InOrder before) (first : Grows before middle)
    (second : Grows middle after) : Grows before after where
  next := first.next.trans second.next
  waited seq waits :=
    (second.waited seq waits).elim (first.waited seq) fun new => Or.inr (first.next.trans new)
  waits seq there := by
    have next := first.next
    -- A number that is gone after the first append stays gone: it is below the numbers to come.
    have gone : seq < middle.nextSeq → middle.contains seq = false →
        after.contains seq = false := by
      intro old absent
      apply eq_false_of_ne_true
      intro held
      rcases second.contained seq held with again | new
      · rw [absent] at again
        cases again
      · omega
    by_cases old : seq < middle.nextSeq
    · rcases first.waits seq (there.imp_right fun bounds => ⟨bounds.1, old⟩) with waits | absent
      · exact second.waits seq (Or.inl waits)
      · exact Or.inr (gone old absent)
    · rcases there with waited | bounds
      · have below := inOrder.below seq waited
        omega
      · exact second.waits seq (Or.inr ⟨by omega, bounds.2⟩)
  contained seq held :=
    (second.contained seq held).elim (first.contained seq) fun new => Or.inr (first.next.trans new)

end Grows

namespace Forwarder

variable {f after : Forwarder} {event : Spool.Event} {seq : Nat} {nowMs : Int64}

theorem append_answer {number : Nat} {loss : Option Loss}
    (given : f.append event = some (after, number, loss)) :
    ∃ spool, (f.spool.append event).2 = some (spool, number, loss) ∧
      after = { f with disk := f.disk.applyAll (f.spool.append event).1, spool } := by
  rcases Option.map_eq_some_iff.mp given with ⟨⟨spool, answer⟩, isAnswer, same⟩
  cases same
  exact ⟨spool, isAnswer, rfl⟩

/-- The position stays, the numbers grow, and these records are new. -/
structure Writes (f after : Forwarder) (seq : Nat) (new : List Entry) : Prop where
  aligned : Aligned after.disk after.spool after.cursor seq
  grows : Grows f.spool after.spool
  numbers : new.map (·.seq) =
    List.range' f.spool.nextSeq (after.spool.nextSeq - f.spool.nextSeq)
  entries : ∀ entry ∈ after.disk.entries,
    entry ∈ f.disk.entries ∨ ∃ original ∈ new, entry = stored original

theorem Writes.trans {middle : Forwarder} {first second : List Entry} (inOrder : InOrder f.spool)
    (earlier : Writes f middle seq first) (later : Writes middle after seq second) :
    Writes f after seq (first ++ second) where
  aligned := later.aligned
  grows := earlier.grows.trans inOrder later.grows
  numbers := by
    have up := earlier.grows.next
    have further := later.grows.next
    have meets : f.spool.nextSeq + 1 * (middle.spool.nextSeq - f.spool.nextSeq) =
        middle.spool.nextSeq := by omega
    have whole : after.spool.nextSeq - f.spool.nextSeq =
        middle.spool.nextSeq - f.spool.nextSeq + (after.spool.nextSeq - middle.spool.nextSeq) := by
      omega
    rw [List.map_append, earlier.numbers, later.numbers, whole, ← List.range'_append, meets]
  entries entry there := by
    rcases later.entries entry there with before | ⟨original, new, same⟩
    · refine (earlier.entries entry before).imp_right ?_
      rintro ⟨original, new, same⟩
      exact ⟨original, List.mem_append_left _ new, same⟩
    · exact Or.inr ⟨original, List.mem_append_right _ new, same⟩

theorem append_writes (aligned : Aligned f.disk f.spool f.cursor seq)
    (body : (entryBody (event.entry f.spool.nextSeq)).length < 2 ^ 32) {number : Nat}
    {loss : Option Loss} (given : f.append event = some (after, number, loss)) :
    Writes f after seq [event.entry number] := by
  rcases append_answer given with ⟨spool, isAnswer, rfl⟩
  rcases aligned.append body isAnswer with ⟨stands, log, dropped, appends⟩
  have isNext : number = f.spool.nextSeq := appends.seq
  have next : spool.nextSeq = f.spool.nextSeq + 1 := appends.next
  refine ⟨stands, .of_appends aligned.inOrder appends, ?_, ?_⟩
  · rw [next, Nat.add_sub_cancel_left, isNext]
    rfl
  · intro entry there
    refine (aligned.entries_append body isAnswer entry there).imp_right fun same => ?_
    rw [← isNext] at same
    exact ⟨_, List.mem_singleton_self _, same⟩

theorem nested_writes {seq : Nat} {new : List Entry} (loss : Option Loss)
    (writes : Writes f after seq new) : Writes f (after.nested loss) seq new := by
  refine ⟨?_, ?_, ?_, ?_⟩
  · rw [nested_disk, nested_spool, nested_cursor]
    exact writes.aligned
  · rw [nested_spool]
    exact writes.grows
  · rw [nested_spool]
    exact writes.numbers
  · rw [nested_disk]
    exact writes.entries

theorem reportLoss_writes {loss : Loss} (aligned : Aligned f.disk f.spool f.cursor seq)
    (body : (entryBody ((lossReport f.gatewayId (Loss.addTo f.cumulativeLoss loss) nowMs).entry
      f.spool.nextSeq)).length < 2 ^ 32) (given : f.reportLoss loss nowMs = some after) :
    Writes f after seq
      [(lossReport f.gatewayId (Loss.addTo f.cumulativeLoss loss) nowMs).entry
        f.spool.nextSeq] := by
  rcases Option.map_eq_some_iff.mp given with ⟨⟨reported, number, nested⟩, appended, rfl⟩
  rcases append_answer appended with ⟨spool, isAnswer, _⟩
  have counted : Aligned (f.count loss).disk (f.count loss).spool (f.count loss).cursor seq :=
    aligned
  rcases counted.append body isAnswer with ⟨_, _, _, appends⟩
  have isNext : number = f.spool.nextSeq := appends.seq
  have writes := append_writes counted body appended
  rw [isNext] at writes
  exact nested_writes nested ⟨writes.aligned, writes.grows, writes.numbers, writes.entries⟩

theorem submit_writes (aligned : Aligned f.disk f.spool f.cursor seq)
    (records : f.Records event nowMs) {number : Nat}
    (given : f.submit event nowMs = some (after, number)) :
    Writes f after seq (f.writes event nowMs) := by
  rcases Option.bind_eq_some_iff.mp given with ⟨⟨middle, first, loss⟩, appended, rest⟩
  have writes := append_writes aligned records.1 appended
  rw [Forwarder.writes, appended]
  cases loss with
  | none =>
      cases rest
      exact writes
  | some loss =>
      have fits := records.2 middle first loss appended
      rcases append_answer appended with ⟨spool, _, same⟩
      rcases Option.map_eq_some_iff.mp rest with ⟨last, reported, isLast⟩
      cases isLast
      have gateway : middle.gatewayId = f.gatewayId := by rw [same]
      have total : middle.cumulativeLoss = f.cumulativeLoss := by rw [same]
      rw [← gateway, ← total] at fits ⊢
      exact writes.trans aligned.inOrder (reportLoss_writes writes.aligned fits reported)

end Forwarder

section Offered

variable {spool : Spool} {seq after budget : Nat} {sends : List Send}

theorem mem_attempts {waiting sent : List Nat} {attempt : Attempt}
    (member : attempt ∈ PiAgents.Spooling.attempts waiting sent sends) :
    ∃ front last others, sends = front ++ last :: others ∧
      attempt = ⟨last.entry.seq, waiting, sent ++ queued front⟩ := by
  induction sends generalizing sent with
  | nil => cases member
  | cons send rest ih =>
      rcases List.mem_cons.mp member with rfl | later
      · exact ⟨[], send, rest, rfl, by rw [show queued [] = [] from rfl, List.append_nil]⟩
      · rcases ih later with ⟨front, last, others, rfl, rfl⟩
        refine ⟨send :: front, last, others, rfl, ?_⟩
        rw [List.append_assoc, ← queued_append]
        rfl

theorem attempts_ordered (sent : Sends spool seq budget sends after) (inOrder : InOrder spool)
    {before : List Nat} (behind : ∀ p ∈ spool.waiting, p < seq → p ∈ before) :
    ∀ attempt ∈ PiAgents.Spooling.attempts spool.waiting before sends,
      ∀ p ∈ attempt.waiting, p < attempt.seq → p ∈ attempt.sent := by
  intro attempt member p waits less
  rcases sent.offers with ⟨rest, front, taken⟩
  rcases mem_attempts member with ⟨first, last, others, split, rfl⟩
  apply List.mem_append.mpr
  by_cases early : p < seq
  · exact Or.inl (behind p waits early)
  · right
    rw [taken first last others split]
    have whole : first.map (·.entry.seq) ++
        last.entry.seq :: (others.map (·.entry.seq) ++ rest) = spool.waitingFrom seq := by
      rw [← front, split, List.map_append, List.append_assoc]
      rfl
    have sorted : (first.map (·.entry.seq) ++
        last.entry.seq :: (others.map (·.entry.seq) ++ rest)).Pairwise (· < ·) := by
      rw [whole]
      exact inOrder.sorted.sublist List.filter_sublist
    apply mem_front_of_lt sorted
    · rw [whole]
      exact List.mem_filter.mpr ⟨waits, decide_eq_true (Nat.le_of_not_lt early)⟩
    · exact less

end Offered

namespace ForwardRun

/-- The numbers of a running forwarder: its position stands at `seq`, and what waits behind it is
with the publisher. -/
structure Settled (h : ForwardRun) (f : Forwarder) (seq : Nat) : Prop where
  aligned : Aligned f.disk f.spool f.cursor seq
  behind : ∀ p ∈ f.spool.waiting, p < seq → p ∈ h.outstanding
  handed : ∀ p ∈ h.outstanding, p ∈ h.sent
  below : ∀ p ∈ h.sent, p < f.spool.nextSeq
  inTurn : ∀ p ∈ h.sent, ∀ q ∈ f.spool.waiting, q < p → q ∈ h.sent
  entered : ∀ p ∈ h.entered, p < f.spool.nextSeq
  kept : ∀ p ∈ h.entered, p ∈ f.spool.waiting ∨ p ∈ h.delivered ∨
    p ∈ h.lost ∧ f.spool.contains p = false
  old : ∀ entry ∈ h.written, entry.seq < f.spool.nextSeq
  entries : ∀ entry ∈ f.disk.entries, ∃ original ∈ h.written, entry = stored original

def Ordered (h : ForwardRun) : Prop :=
  ∀ attempt ∈ h.attempts, ∀ p ∈ attempt.waiting, p < attempt.seq → p ∈ attempt.sent

/-- What is sent for the first time comes after all that was sent before. -/
def FirstInOrder (sent : List Nat) : Prop :=
  ∀ front seq rest, sent = front ++ seq :: rest → seq ∉ front → ∀ earlier ∈ front, earlier < seq

structure Faithful (h : ForwardRun) : Prop where
  numbered : (h.written.map (·.seq)).Pairwise (· < ·)
  sends : ∀ send ∈ h.sends, send.topic = topicName send.entry.topic ∧
    ∃ original ∈ h.written, send.entry = stored original

/-- What holds of the history of a run. -/
structure Recorded (h : ForwardRun) : Prop where
  ordered : h.Ordered
  first : FirstInOrder h.sent
  faithful : h.Faithful

inductive Steady (h : ForwardRun) : Prop where
  | stopped (closed : h.forwarder = none) (recorded : h.Recorded)
  | running {f : Forwarder} {seq : Nat} (isOpen : h.forwarder = some f) (settled : h.Settled f seq)
      (recorded : h.Recorded)

theorem FirstInOrder.append {sent more : List Nat} (first : FirstInOrder sent)
    (sorted : more.Pairwise (· < ·))
    (new : ∀ q ∈ more, q ∉ sent → ∀ p ∈ sent, p < q) : FirstInOrder (sent ++ more) := by
  intro front seq rest split absent earlier inFront
  rcases List.append_eq_append_iff.mp split with ⟨others, isFront, isMore⟩ | ⟨others, isSent, tail⟩
  · rw [isFront] at absent inFront
    have member : seq ∈ more := by
      rw [isMore]
      exact List.mem_append_right _ List.mem_cons_self
    rcases List.mem_append.mp inFront with old | now
    · exact new seq member (fun was => absent (List.mem_append_left _ was)) earlier old
    · rw [isMore] at sorted
      exact (List.pairwise_append.mp sorted).2.2 earlier now seq List.mem_cons_self
  · cases others with
    | nil =>
        rw [List.append_nil] at isSent
        have member : seq ∈ more := by
          rw [← List.nil_append more, ← tail]
          exact List.mem_cons_self
        rw [← isSent] at absent inFront
        exact new seq member absent earlier inFront
    | cons last others =>
        rw [List.cons_append, List.cons.injEq] at tail
        exact first front seq others (by rw [isSent, tail.1]) absent earlier inFront

theorem firstInOrder_nil : FirstInOrder [] := by
  intro front seq rest split
  have whole := congrArg List.length split
  rw [List.length_append, List.length_cons, List.length_nil] at whole
  omega

theorem steady_start {gatewayId : String} {config : SpoolConfig} {disk : Disk}
    {files : List StoredFile} (recoverable : Recoverable disk files) {spool : Spool}
    (opened : (Spool.open config disk).2 = some spool) :
    (start gatewayId config disk).Steady := by
  rcases Aligned.of_opened recoverable opened with ⟨first, aligned, all⟩
  rcases aligned.entries_sorted with ⟨sorted, below⟩
  have isOpen : (start gatewayId config disk).forwarder =
      some (.new gatewayId (disk.applyAll (Spool.open config disk).1) spool) := by
    rw [start, opened]
    rfl
  have entered : (start gatewayId config disk).entered = spool.waiting := by
    rw [start, opened]
    rfl
  refine .running isOpen ⟨aligned, ?_, ?_, ?_, ?_, ?_, ?_, below, ?_⟩
    ⟨?_, firstInOrder_nil, sorted, ?_⟩
  · intro p waits less
    have inFirst : p ∈ spool.waitingFrom first := by
      rw [all]
      exact waits
    have above : first ≤ p := of_decide_eq_true (List.mem_filter.mp inFirst).2
    omega
  · intro p member
    cases member
  · intro p member
    cases member
  · intro p member
    cases member
  · rw [entered]
    exact aligned.inOrder.below
  · rw [entered]
    exact fun p waits => Or.inl waits
  · intro entry there
    exact ⟨entry, there, (aligned.entries_stored entry there).symm⟩
  · intro attempt member
    cases member
  · intro send member
    cases member

section Submitting

variable {h : ForwardRun} {f after : Forwarder} {seq : Nat} {new : List Entry}

theorem moved (writes : Forwarder.Writes f after seq new) {p : Nat}
    (there : p ∈ f.spool.waiting ++ new.map (·.seq)) :
    p ∈ after.spool.waiting ∨
      p ∈ (f.spool.waiting ++ new.map (·.seq)).filter (!after.spool.contains ·) ∧
        after.spool.contains p = false := by
  have place : p ∈ f.spool.waiting ∨ f.spool.nextSeq ≤ p ∧ p < after.spool.nextSeq := by
    apply (List.mem_append.mp there).imp_right
    intro isNew
    rw [writes.numbers] at isNew
    have bounds := List.mem_range'_1.mp isNew
    omega
  refine (writes.grows.waits p place).imp_right fun absent => ⟨?_, absent⟩
  apply List.mem_filter.mpr
  refine ⟨there, ?_⟩
  rw [absent]
  rfl

theorem Settled.submitted (settled : h.Settled f seq) (writes : Forwarder.Writes f after seq new)
    (number : Nat) : (h.submitted f new (some (after, number))).Settled after seq := by
  have grows := writes.grows
  have next := grows.next
  have old : ∀ {p : Nat}, p ∈ after.spool.waiting → p < f.spool.nextSeq →
      p ∈ f.spool.waiting := by
    intro p waits below
    exact (grows.waited p waits).resolve_right (by omega)
  have isNew : ∀ p ∈ new.map (·.seq), f.spool.nextSeq ≤ p ∧ p < after.spool.nextSeq := by
    rw [writes.numbers]
    intro p member
    have bounds := List.mem_range'_1.mp member
    omega
  constructor
  · exact writes.aligned
  · intro p waits less
    have above := settled.aligned.le_next
    exact settled.behind p (old waits (by omega)) less
  · exact settled.handed
  · intro p member
    exact Nat.lt_of_lt_of_le (settled.below p member) next
  · intro p member q waits less
    have below := settled.below p member
    exact settled.inTurn p member q (old waits (by omega)) less
  · intro p member
    rcases List.mem_append.mp member with was | now
    · exact Nat.lt_of_lt_of_le (settled.entered p was) next
    · exact (isNew p now).2
  · intro p member
    have goes : p ∈ f.spool.waiting ++ new.map (·.seq) → p ∈ after.spool.waiting ∨
        p ∈ (h.submitted f new (some (after, number))).lost ∧ after.spool.contains p = false :=
      fun there => (moved writes there).imp_right fun gone =>
        ⟨List.mem_append_right _ gone.1, gone.2⟩
    rcases List.mem_append.mp member with was | now
    · rcases settled.kept p was with waited | delivered | ⟨gone, absent⟩
      · exact (goes (List.mem_append_left _ waited)).imp_right Or.inr
      · exact Or.inr (Or.inl delivered)
      · right
        right
        refine ⟨List.mem_append_left _ gone, ?_⟩
        apply eq_false_of_ne_true
        intro held
        rcases grows.contained p held with again | later
        · rw [absent] at again
          cases again
        · have below := settled.entered p was
          omega
    · exact (goes (List.mem_append_right _ now)).imp_right Or.inr
  · intro entry member
    rcases List.mem_append.mp member with was | now
    · exact Nat.lt_of_lt_of_le (settled.old entry was) next
    · exact (isNew entry.seq (List.mem_map_of_mem now)).2
  · intro entry there
    rcases writes.entries entry there with before | ⟨original, now, same⟩
    · rcases settled.entries entry before with ⟨original, was, same⟩
      exact ⟨original, List.mem_append_left _ was, same⟩
    · exact ⟨original, List.mem_append_right _ now, same⟩

theorem Recorded.submitted (recorded : h.Recorded) (settled : h.Settled f seq)
    (writes : Forwarder.Writes f after seq new) (number : Nat) :
    (h.submitted f new (some (after, number))).Recorded := by
  refine ⟨recorded.ordered, recorded.first, ?_, ?_⟩
  · change ((h.written ++ new).map (·.seq)).Pairwise (· < ·)
    rw [List.map_append, List.pairwise_append]
    refine ⟨recorded.faithful.numbered, ?_, ?_⟩
    · rw [writes.numbers]
      exact List.pairwise_lt_range' ..
    · intro p was q now
      rcases List.mem_map.mp was with ⟨entry, member, rfl⟩
      rw [writes.numbers] at now
      have bounds := List.mem_range'_1.mp now
      have below := settled.old entry member
      omega
  · intro send member
    rcases recorded.faithful.sends send member with ⟨topic, original, was, same⟩
    exact ⟨topic, original, List.mem_append_left _ was, same⟩

theorem Settled.submits (settled : h.Settled f seq) (recorded : h.Recorded) {event : Spool.Event}
    {nowMs : Int64} (records : f.Records event nowMs) :
    (h.submitted f (f.writes event nowMs) (f.submit event nowMs)).Steady := by
  cases given : f.submit event nowMs with
  | none => exact .stopped rfl ⟨recorded.ordered, recorded.first, recorded.faithful.numbered,
    recorded.faithful.sends⟩
  | some result =>
      rcases result with ⟨after, number⟩
      have writes := Forwarder.submit_writes settled.aligned records given
      exact .running rfl (settled.submitted writes number)
        (recorded.submitted settled writes number)

end Submitting

/-- The numbers behind the position that sending starts from are with the publisher. -/
theorem Settled.behind_reported {h : ForwardRun} {f after : Forwarder} {seq first : Nat}
    {reports : List (Nat × Bool)} (settled : h.Settled f seq)
    (processed : Processed f after reports)
    (position : (first = seq ∧ (reports.any fun r => !r.2) = false) ∨
      after.spool.waitingFrom first = after.spool.waiting) :
    ∀ p ∈ after.spool.waiting, p < first → p ∈ h.outstanding.diff (reports.map (·.1)) := by
  intro p waits less
  rcases position with ⟨rfl, delivered⟩ | all
  · rw [processed.waiting] at waits
    rcases List.mem_filter.mp waits with ⟨waited, unreported⟩
    have absent : p ∉ acknowledged reports := of_decide_eq_true unreported
    rw [acknowledged_of_none_failed delivered] at absent
    exact List.mem_diff_of_mem (settled.behind p waited less) absent
  · rw [← all] at waits
    have above : first ≤ p := of_decide_eq_true (List.mem_filter.mp waits).2
    omega

section Pumping

variable {h : ForwardRun} {f : Forwarder} {seq budget : Nat} {reports : List (Nat × Bool)}
  {answers : Nat → SendOutcome} {result : Forwarder × List Send}

theorem sent_pumped : (h.pumped reports result).sent = h.sent ++ queued result.2 :=
  queued_append h.sends result.2

theorem Settled.waited (processed : Processed f result.1 reports) :
    ∀ p ∈ result.1.spool.waiting, p ∈ f.spool.waiting := by
  intro p waits
  rw [processed.waiting] at waits
  exact List.mem_of_mem_filter waits

theorem Settled.handed_reported (settled : h.Settled f seq) :
    ∀ p ∈ h.outstanding.diff (reports.map (·.1)), p ∈ h.sent :=
  fun p member => settled.handed p (List.diff_subset _ _ member)

theorem Settled.pumped (settled : h.Settled f seq) {first last : Nat}
    (processed : Processed f result.1 reports)
    (stands : Aligned result.1.disk result.1.spool result.1.cursor last)
    (behind : ∀ p ∈ result.1.spool.waiting, p < first →
      p ∈ h.outstanding.diff (reports.map (·.1)))
    (sends : Sends result.1.spool first budget result.2 last) :
    (h.pumped reports result).Settled result.1 last := by
  have inOrder := stands.inOrder
  have waited := Settled.waited processed
  refine ⟨stands, ?_, ?_, ?_, ?_, ?_, ?_, ?_, ?_⟩
  · intro p waits less
    exact sends.passed behind waits less
  · intro p member
    rw [sent_pumped]
    apply List.mem_append.mpr
    exact (List.mem_append.mp member).imp_left (settled.handed_reported p)
  · intro p member
    rw [sent_pumped] at member
    rcases List.mem_append.mp member with was | now
    · exact processed.next ▸ settled.below p was
    · exact inOrder.below p (sends.waits now)
  · intro p member q waits less
    rw [sent_pumped] at member ⊢
    rcases List.mem_append.mp member with was | now
    · exact List.mem_append_left _ (settled.inTurn p was q (waited q waits) less)
    · exact sends.covers inOrder (fun r there below => settled.handed_reported r
        (behind r there below)) now waits less
  · intro p member
    exact processed.next ▸ settled.entered p member
  · intro p member
    rcases settled.kept p member with waits | delivered | ⟨gone, absent⟩
    · by_cases now : p ∈ acknowledged reports
      · exact Or.inr (Or.inl (List.mem_append_right _ now))
      · left
        rw [processed.waiting]
        exact List.mem_filter.mpr ⟨waits, decide_eq_true now⟩
    · exact Or.inr (Or.inl (List.mem_append_left _ delivered))
    · right
      right
      refine ⟨gone, eq_false_of_ne_true fun held => ?_⟩
      rw [processed.contained p held] at absent
      cases absent
  · intro entry member
    exact processed.next ▸ settled.old entry member
  · intro entry there
    exact settled.entries entry (processed.entries entry there)

theorem Recorded.pumped (recorded : h.Recorded) (settled : h.Settled f seq) {first last : Nat}
    (processed : Processed f result.1 reports)
    (stands : Aligned result.1.disk result.1.spool result.1.cursor last)
    (behind : ∀ p ∈ result.1.spool.waiting, p < first → p ∈ h.sent)
    (offered : ∀ send ∈ result.2, Offered answers result.1.disk send)
    (sends : Sends result.1.spool first budget result.2 last) :
    (h.pumped reports result).Recorded := by
  have inOrder := stands.inOrder
  have waited := Settled.waited processed
  refine ⟨?_, ?_, recorded.faithful.numbered, ?_⟩
  · intro attempt member
    rcases List.mem_append.mp member with was | now
    · exact recorded.ordered attempt was
    · exact attempts_ordered sends inOrder behind attempt now
  · rw [sent_pumped]
    apply recorded.first.append (sends.sorted inOrder)
    intro q now new p was
    by_contra above
    have less : q < p := Nat.lt_of_le_of_ne (Nat.le_of_not_lt above) fun same => new (same ▸ was)
    exact new (settled.inTurn p was q (waited q (sends.waits now)) less)
  · intro send member
    rcases List.mem_append.mp member with was | now
    · exact recorded.faithful.sends send was
    · have offer := offered send now
      exact ⟨offer.topic, settled.entries send.entry (processed.entries _ offer.entry)⟩

theorem Settled.pumps (settled : h.Settled f seq) (recorded : h.Recorded)
    (pumps : Pumps f seq budget reports answers result) : (h.pumped reports result).Steady := by
  rcases pumps.sends with ⟨first, last, stands, position, sends⟩
  have behind := settled.behind_reported pumps.processed position
  refine .running rfl (settled.pumped pumps.processed stands behind sends)
    (recorded.pumped settled pumps.processed stands ?_ pumps.offered sends)
  exact fun p waits less => settled.handed_reported p (behind p waits less)

end Pumping

theorem Settled.synced {h : ForwardRun} {f : Forwarder} {seq : Nat} (settled : h.Settled f seq) :
    ({ h with forwarder := some f.sync } : ForwardRun).Settled f.sync seq where
  aligned := settled.aligned.sync
  behind := settled.behind
  handed := settled.handed
  below := settled.below
  inTurn := settled.inTurn
  entered := settled.entered
  kept := settled.kept
  old := settled.old
  entries := settled.entries

theorem Steady.step {h : ForwardRun} (steady : h.Steady) (event : ForwardStep)
    (records : h.Records event) : (h.step event).Steady := by
  cases steady with
  | stopped closed recorded =>
      have same : h.step event = h := by
        rw [ForwardRun.step, closed]
      rw [same]
      exact .stopped closed recorded
  | @running f seq isOpen settled recorded =>
      simp only [ForwardRun.step, ForwardRun.Records, isOpen] at records ⊢
      cases event with
      | submitFlow record nowMs => exact settled.submits recorded records
      | submitHealth component kind count sequences eventTimesMs detail nowMs =>
          exact settled.submits recorded records
      | pump budget reports answers =>
          exact settled.pumps recorded (pump_pumps settled.aligned budget reports answers)
      | sync =>
          exact .running rfl settled.synced
            ⟨recorded.ordered, recorded.first, recorded.faithful.numbered,
    recorded.faithful.sends⟩

theorem Settled.atCursor {h : ForwardRun} {f : Forwarder} {seq p : Nat} (settled : h.Settled f seq)
    (waits : p ∈ f.spool.waiting) (above : seq ≤ p) : AtCursor f p := by
  have returned := (settled.aligned.read f.spool.unacked).returned
  have enough : (f.spool.waitingFrom seq).length ≤ f.spool.unacked := by
    rw [settled.aligned.unacked]
    exact List.length_filter_le _ _
  rw [AtCursor, returned, List.take_of_length_le enough]
  exact List.mem_filter.mpr ⟨waits, decide_eq_true above⟩

theorem Steady.unstuck {h : ForwardRun} (steady : h.Steady) : h.Unstuck := by
  cases steady with
  | stopped closed recorded =>
      refine ⟨?_, ?_, recorded.ordered⟩
      · intro f isOpen
        rw [closed] at isOpen
        cases isOpen
      · intro f isOpen
        rw [closed] at isOpen
        cases isOpen
  | @running f seq isOpen settled recorded =>
      refine ⟨?_, ?_, recorded.ordered⟩
      · intro other same p waits
        rw [isOpen] at same
        cases same
        by_cases early : p < seq
        · exact Or.inr (settled.behind p waits early)
        · exact Or.inl (settled.atCursor waits (Nat.le_of_not_lt early))
      · intro other same
        rw [isOpen] at same
        cases same
        exact settled.kept

end ForwardRun

end PiAgents.Spooling
