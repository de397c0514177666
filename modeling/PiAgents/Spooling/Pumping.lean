import PiAgents.Spooling.Positions
import PiAgents.Spooling.Forwarder

/-! A call of pump in numbers: the reports take numbers out of those that wait, and what is sent is
read on from the position without a gap. -/

namespace PiAgents.Spooling

open Forwarder (queued offer sendLoop)

/-- The numbers of the reports that say delivered. -/
def acknowledged (reports : List (Nat × Bool)) : List Nat := (reports.filter (·.2)).map (·.1)

theorem acknowledged_append (first second : List (Nat × Bool)) :
    acknowledged (first ++ second) = acknowledged first ++ acknowledged second := by
  rw [acknowledged, List.filter_append, List.map_append]
  rfl

theorem acknowledged_of_none_failed {reports : List (Nat × Bool)}
    (delivered : (reports.any fun r => !r.2) = false) :
    acknowledged reports = reports.map (·.1) := by
  have all : reports.filter (·.2) = reports := by
    apply List.filter_eq_self.mpr
    intro report member
    have kept := List.any_eq_false.mp delivered report member
    simpa using kept
  rw [acknowledged, all]

/-- A list of reports leaves the position and the numbers to come, and takes from those that wait
the ones delivered. -/
structure Processed (f after : Forwarder) (reports : List (Nat × Bool)) : Prop where
  gatewayId : after.gatewayId = f.gatewayId
  loss : after.cumulativeLoss = f.cumulativeLoss
  lost : after.stats.lost = f.stats.lost
  next : after.spool.nextSeq = f.spool.nextSeq
  waiting : after.spool.waiting = f.spool.waiting.filter (· ∉ acknowledged reports)
  contained : ∀ seq, after.spool.contains seq = true → f.spool.contains seq = true
  entries : ∀ entry ∈ after.disk.entries, entry ∈ f.disk.entries

namespace Processed

variable {f middle after : Forwarder} {reports later : List (Nat × Bool)}

theorem refl (f : Forwarder) : Processed f f [] where
  gatewayId := rfl
  loss := rfl
  lost := rfl
  next := rfl
  waiting := (List.filter_eq_self.mpr fun _ _ => rfl).symm
  contained _ held := held
  entries _ there := there

theorem trans (first : Processed f middle reports) (second : Processed middle after later) :
    Processed f after (reports ++ later) where
  gatewayId := second.gatewayId.trans first.gatewayId
  loss := second.loss.trans first.loss
  lost := second.lost.trans first.lost
  next := second.next.trans first.next
  waiting := by
    rw [second.waiting, first.waiting, List.filter_filter, acknowledged_append]
    apply List.filter_congr
    intro seq _
    simp only [List.mem_append, not_or, Bool.decide_and]
    exact Bool.and_comm _ _
  contained seq held := first.contained seq (second.contained seq held)
  entries entry there := first.entries entry (second.entries entry there)

end Processed

theorem Acknowledges.filtered {spool after : Spool} {seq : Nat}
    (acknowledges : Acknowledges spool seq after) (inOrder : InOrder spool) :
    after.waiting = spool.waiting.filter (· ≠ seq) := by
  have distinct : spool.waiting.Nodup := inOrder.sorted.imp fun less => Nat.ne_of_lt less
  rw [acknowledges.waiting, distinct.erase_eq_filter]
  apply List.filter_congr
  intro other _
  by_cases same : other = seq
  · simp [same]
  · simp [same]

section Reports

variable {f : Forwarder} {seq : Nat}

theorem report_processed (aligned : Aligned f.disk f.spool f.cursor seq) (r : Nat × Bool) :
    Aligned (f.report r).disk (f.report r).spool f.cursor seq ∧ (f.report r).cursor = f.cursor ∧
      Processed f (f.report r) [r] := by
  cases said : r.2 with
  | true =>
      rcases aligned.ack r.1 with ⟨after, acknowledges⟩
      have same : f.report r = { f with
          disk := f.disk.applyAll (f.spool.ack r.1).1
          spool := (f.spool.ack r.1).2
          stats := { f.stats with delivered := f.stats.delivered + 1 } } := by
        rw [Forwarder.report, said]
        rfl
      rw [same]
      refine ⟨after, rfl, rfl, rfl, rfl, acknowledges.next, ?_, acknowledges.contained,
        aligned.entries_ack r.1⟩
      rw [acknowledges.filtered aligned.inOrder]
      simp [acknowledged, said]
  | false =>
      have same : f.report r = { f with
          stats := { f.stats with failedDeliveries := f.stats.failedDeliveries + 1 } } := by
        rw [Forwarder.report, said]
        rfl
      rw [same]
      refine ⟨aligned, rfl, rfl, rfl, rfl, rfl, ?_, fun _ held => held, fun _ there => there⟩
      simp [acknowledged, said]

theorem reports_processed (aligned : Aligned f.disk f.spool f.cursor seq)
    (reports : List (Nat × Bool)) :
    Aligned (reports.foldl Forwarder.report f).disk (reports.foldl Forwarder.report f).spool
        f.cursor seq ∧
      (reports.foldl Forwarder.report f).cursor = f.cursor ∧
      Processed f (reports.foldl Forwarder.report f) reports := by
  induction reports generalizing f with
  | nil => exact ⟨aligned, rfl, .refl f⟩
  | cons r rest ih =>
      rcases report_processed aligned r with ⟨first, same, processed⟩
      rw [← same] at first
      rcases ih first with ⟨later, sameLater, processedLater⟩
      rw [same] at later sameLater
      exact ⟨later, sameLater, processed.trans processedLater⟩

theorem processReports_processed (aligned : Aligned f.disk f.spool f.cursor seq)
    (reports : List (Nat × Bool)) :
    Processed f (f.processReports reports) reports ∧
      ∃ first, Aligned (f.processReports reports).disk (f.processReports reports).spool
          (f.processReports reports).cursor first ∧
        ((first = seq ∧ (reports.any fun r => !r.2) = false) ∨
          (f.processReports reports).spool.waitingFrom first =
            (f.processReports reports).spool.waiting) := by
  rcases reports_processed aligned reports with ⟨after, same, processed⟩
  unfold Forwarder.processReports
  by_cases failed : (reports.any fun r => !r.2) = true
  · rcases after.rewind with ⟨first, rewound, all⟩
    simp only [failed, if_true]
    exact ⟨⟨processed.gatewayId, processed.loss, processed.lost, processed.next,
      processed.waiting, processed.contained, processed.entries⟩, first, rewound, Or.inr all⟩
  · rw [if_neg failed]
    rw [← same] at after
    exact ⟨processed, seq, after, Or.inl ⟨rfl, eq_false_of_ne_true failed⟩⟩

end Reports

section Offers

variable {answers : Nat → SendOutcome}

/-- A send of an entry that was read. -/
def sendOf (outcome : SendOutcome) (found : Cursor × Entry) : Send :=
  ⟨topicName found.2.topic, found.2, outcome⟩

theorem queued_append (first second : List Send) :
    queued (first ++ second) = queued first ++ queued second := by
  rw [queued, List.filter_append, List.map_append]
  rfl

theorem queued_taken (batch : List (Cursor × Entry)) :
    queued (batch.map (sendOf .queued)) = batch.map (·.2.seq) := by
  rw [queued, List.filter_eq_self.mpr]
  · rw [List.map_map]
    rfl
  · intro send member
    rcases List.mem_map.mp member with ⟨found, _, rfl⟩
    rfl

theorem offer_all (made : Nat) (batch : List (Cursor × Entry))
    (took : (offer answers made batch).2 = none) :
    (offer answers made batch).1 = batch.map (sendOf .queued) := by
  induction batch generalizing made with
  | nil => rfl
  | cons found rest ih =>
      cases answer : answers made with
      | queued =>
          simp only [offer, answer] at took ⊢
          rw [ih (made + 1) took]
          rfl
      | full => simp [offer, answer] at took

theorem offer_stopped (made : Nat) (batch : List (Cursor × Entry)) {position : Cursor}
    (full : (offer answers made batch).2 = some position) :
    ∃ taken found rest, batch = taken ++ found :: rest ∧ found.1 = position ∧
      (offer answers made batch).1 = taken.map (sendOf .queued) ++ [sendOf .full found] := by
  induction batch generalizing made with
  | nil => cases full
  | cons found rest ih =>
      cases answer : answers made with
      | queued =>
          simp only [offer, answer] at full ⊢
          rcases ih (made + 1) full with ⟨taken, last, others, rfl, same, sends⟩
          exact ⟨found :: taken, last, others, rfl, same, by rw [sends]; rfl⟩
      | full =>
          simp only [offer, answer, Option.some.injEq] at full ⊢
          exact ⟨[], found, rest, rfl, full, rfl⟩

/-- A send of a record of the directory, with one of the answers. -/
structure Offered (answers : Nat → SendOutcome) (disk : Disk) (send : Send) : Prop where
  entry : send.entry ∈ disk.entries
  topic : send.topic = topicName send.entry.topic
  answered : ∃ made, answers made = send.outcome

theorem offer_offered {disk : Disk} {made : Nat} {batch : List (Cursor × Entry)}
    (entries : ∀ found ∈ batch, found.2 ∈ disk.entries) :
    ∀ send ∈ (offer answers made batch).1, Offered answers disk send := by
  induction batch generalizing made with
  | nil =>
      intro send member
      cases member
  | cons found rest ih =>
      have later : ∀ send ∈ (offer answers (made + 1) rest).1, Offered answers disk send :=
        ih fun other member => entries other (List.mem_cons_of_mem _ member)
      have first := entries found List.mem_cons_self
      intro send member
      cases answer : answers made with
      | queued =>
          simp only [offer, answer] at member
          rcases List.mem_cons.mp member with rfl | sent
          · exact ⟨first, rfl, made, answer⟩
          · exact later send sent
      | full =>
          simp only [offer, answer] at member
          rw [List.mem_singleton.mp member]
          exact ⟨first, rfl, made, answer⟩

end Offers

/-- The publisher took all that was offered, or the last one was offered when it was full. -/
inductive Stops (waitingAfter : List Nat) (budget : Nat) (sends : List Send) : Prop where
  | ran (taken : ∀ send ∈ sends, send.outcome = .queued)
      (spent : (queued sends).length = budget ∨ waitingAfter = [])
  | full {before : List Send} {last : Send} (whole : sends = before ++ [last])
      (taken : ∀ send ∈ before, send.outcome = .queued) (stopped : last.outcome = .full)
      (first : waitingAfter.head? = some last.entry.seq)

/-- What is sent is the front of what waits from the position on; the rest waits from the new
one. -/
structure Sends (spool : Spool) (seq budget : Nat) (sends : List Send) (after : Nat) : Prop where
  front : queued sends ++ spool.waitingFrom after = spool.waitingFrom seq
  within : (queued sends).length ≤ budget
  stops : Stops (spool.waitingFrom after) budget sends

theorem Sends.nothing {spool : Spool} {seq budget after : Nat}
    (same : spool.waitingFrom after = spool.waitingFrom seq)
    (spent : 0 = budget ∨ spool.waitingFrom after = []) : Sends spool seq budget [] after where
  front := same
  within := Nat.zero_le budget
  stops := .ran (fun _ member => absurd member List.not_mem_nil) spent

theorem Sends.batch {spool : Spool} {seq middle budget after : Nat} {batch : List (Cursor × Entry)}
    {later : List Send}
    (read : batch.map (·.2.seq) ++ spool.waitingFrom middle = spool.waitingFrom seq)
    (few : batch.length ≤ budget)
    (rest : Sends spool middle (budget - batch.length) later after) :
    Sends spool seq budget (batch.map (sendOf .queued) ++ later) after := by
  have count : (queued (batch.map (sendOf .queued) ++ later)).length =
      batch.length + (queued later).length := by
    rw [queued_append, queued_taken, List.length_append, List.length_map]
  have isTaken : ∀ send ∈ batch.map (sendOf .queued), send.outcome = .queued := by
    intro send member
    rcases List.mem_map.mp member with ⟨found, _, rfl⟩
    rfl
  constructor
  · calc
      queued (batch.map (sendOf .queued) ++ later) ++ spool.waitingFrom after =
          batch.map (·.2.seq) ++ (queued later ++ spool.waitingFrom after) := by
        rw [queued_append, queued_taken, List.append_assoc]
      _ = spool.waitingFrom seq := by rw [rest.front, read]
  · have within := rest.within
    omega
  · cases rest.stops with
    | ran taken spent =>
        refine .ran ?_ ?_
        · intro send member
          exact (List.mem_append.mp member).elim (isTaken send) (taken send)
        · rw [count]
          exact spent.imp_left fun all => by omega
    | @full before last whole taken stopped first =>
        have parts : batch.map (sendOf .queued) ++ later =
            (batch.map (sendOf .queued) ++ before) ++ [last] := by
          rw [whole, List.append_assoc]
        refine .full parts ?_ stopped first
        · intro send member
          exact (List.mem_append.mp member).elim (isTaken send) (taken send)

theorem Sends.stopped {spool : Spool} {seq after budget : Nat} {taken rest : List (Cursor × Entry)}
    {found : Cursor × Entry} {left : List Nat}
    (read : (taken ++ found :: rest).map (·.2.seq) ++ left = spool.waitingFrom seq)
    (stands : spool.waitingFrom after = found.2.seq :: (rest.map (·.2.seq) ++ left))
    (few : taken.length < budget) :
    Sends spool seq budget (taken.map (sendOf .queued) ++ [sendOf .full found]) after := by
  have numbers : queued (taken.map (sendOf .queued) ++ [sendOf .full found]) =
      taken.map (·.2.seq) := by
    rw [queued_append, queued_taken]
    exact List.append_nil _
  constructor
  · rw [numbers, stands, ← read, List.map_append, List.append_assoc]
    rfl
  · rw [numbers, List.length_map]
    exact Nat.le_of_lt few
  · apply Stops.full rfl
    · intro send member
      rcases List.mem_map.mp member with ⟨found, _, rfl⟩
      rfl
    · rfl
    · rw [stands]
      rfl

private theorem filter_from {front rest : List Nat} {seq : Nat}
    (sorted : (front ++ seq :: rest).Pairwise (· < ·)) :
    (front ++ seq :: rest).filter (seq ≤ ·) = seq :: rest := by
  have parts := List.pairwise_append.mp sorted
  have before : front.filter (seq ≤ ·) = [] := by
    apply List.filter_eq_nil_iff.mpr
    intro other member
    have less := parts.2.2 other member seq List.mem_cons_self
    simpa using less
  have behind : (seq :: rest).filter (seq ≤ ·) = seq :: rest := by
    apply List.filter_eq_self.mpr
    intro other member
    rcases List.mem_cons.mp member with rfl | later
    · simp
    · simpa using Nat.le_of_lt ((List.pairwise_cons.mp parts.2.1).1 other later)
  rw [List.filter_append, before, behind, List.nil_append]

theorem waitingFrom_split {spool : Spool} (inOrder : InOrder spool) {seq next : Nat}
    {front rest : List Nat} (split : spool.waitingFrom seq = front ++ next :: rest) :
    spool.waitingFrom next = next :: rest := by
  have sorted : (front ++ next :: rest).Pairwise (· < ·) := by
    rw [← split]
    exact inOrder.sorted.sublist List.filter_sublist
  have member : next ∈ spool.waitingFrom seq := by
    rw [split]
    exact List.mem_append_right _ List.mem_cons_self
  have above : seq ≤ next := of_decide_eq_true (List.mem_filter.mp member).2
  calc
    spool.waitingFrom next = (spool.waitingFrom seq).filter (next ≤ ·) := by
      rw [Spool.waitingFrom, Spool.waitingFrom, List.filter_filter]
      apply List.filter_congr
      intro other _
      rw [← Bool.decide_and]
      apply decide_eq_decide.mpr
      omega
    _ = next :: rest := by rw [split, filter_from sorted]

/-- The loop changes nothing but the position and the count of what was sent. -/
theorem sendLoop_sends (answers : Nat → SendOutcome) (rounds made remaining : Nat) {f : Forwarder}
    {seq : Nat} (enough : remaining ≤ rounds)
    (aligned : Aligned f.disk f.spool f.cursor seq) :
    ∃ cursor after,
      (sendLoop answers rounds made remaining f).1 =
        f.send (sendLoop answers rounds made remaining f).2 cursor ∧
      Aligned f.disk f.spool cursor after ∧
      Sends f.spool seq remaining (sendLoop answers rounds made remaining f).2 after := by
  induction rounds generalizing made remaining f seq with
  | zero =>
      have none' : 0 = remaining := by omega
      exact ⟨f.cursor, seq, rfl, aligned, .nothing rfl (Or.inl none')⟩
  | succ rounds ih =>
      rw [sendLoop]
      by_cases spent : remaining = 0
      · rw [if_pos spent]
        exact ⟨f.cursor, seq, rfl, aligned, .nothing rfl (Or.inl spent.symm)⟩
      rw [if_neg spent]
      have reads := aligned.read (min remaining 256)
      rcases reads.next with ⟨after, place, left'⟩
      have read : (f.spool.read f.disk f.cursor (min remaining 256)).1.map (·.2.seq) ++
          f.spool.waitingFrom after = f.spool.waitingFrom seq := by
        rw [reads.returned, left', List.take_append_drop]
      have few : (f.spool.read f.disk f.cursor (min remaining 256)).1.length ≤ remaining := by
        have length := congrArg List.length reads.returned
        rw [List.length_map, List.length_take] at length
        omega
      generalize f.spool.read f.disk f.cursor (min remaining 256) = batch at *
      by_cases empty : batch.1.isEmpty = true
      · rw [if_pos empty]
        have noneRead : batch.1 = [] := List.isEmpty_iff.mp empty
        have nothing : f.spool.waitingFrom seq = [] := by
          have taken := reads.returned
          rw [noneRead] at taken
          rcases List.take_eq_nil_iff.mp taken.symm with zero | nothing
          · omega
          · exact nothing
        rw [noneRead] at read
        refine ⟨batch.2, after, rfl, place, .nothing read (Or.inr ?_)⟩
        rw [left', nothing, List.drop_nil]
      · rw [if_neg empty]
        have some' : batch.1.length ≠ 0 := fun zero =>
          empty (List.isEmpty_iff.mpr (List.length_eq_zero_iff.mp zero))
        dsimp only
        split
        case h_1 position full =>
          rcases offer_stopped made batch.1 full with ⟨taken, found, rest, parts, same, sends⟩
          have inBatch : found ∈ batch.1 := by
            rw [parts]
            exact List.mem_append_right _ List.mem_cons_self
          have stands := reads.positions found inBatch
          rw [same] at stands
          rw [parts] at read few
          rw [sends]
          have split : f.spool.waitingFrom seq = taken.map (·.2.seq) ++
              found.2.seq :: (rest.map (·.2.seq) ++ f.spool.waitingFrom after) := by
            rw [← read, List.map_append, List.append_assoc]
            rfl
          refine ⟨position, found.2.seq, rfl, stands,
            .stopped read (waitingFrom_split aligned.inOrder split) ?_⟩
          · rw [List.length_append, List.length_cons] at few
            omega
        case h_2 none' =>
          have offered := offer_all made batch.1 none'
          rw [offered]
          have fewer : remaining - batch.1.length ≤ rounds := by omega
          have later := ih (made + batch.1.length) (remaining - batch.1.length)
            (f := f.send (batch.1.map (sendOf .queued)) batch.2) fewer place
          rcases later with ⟨cursor, last, same, stands, sends⟩
          refine ⟨cursor, last, ?_, stands, .batch read few sends⟩
          rw [same]
          simp only [Forwarder.send, queued_append, List.length_append, Nat.add_assoc]

theorem sendLoop_offered (answers : Nat → SendOutcome) (rounds made remaining : Nat)
    {f : Forwarder} {seq : Nat} (aligned : Aligned f.disk f.spool f.cursor seq) :
    ∀ send ∈ (sendLoop answers rounds made remaining f).2, Offered answers f.disk send := by
  induction rounds generalizing made remaining f seq with
  | zero =>
      intro send member
      cases member
  | succ rounds ih =>
      rw [sendLoop]
      by_cases spent : remaining = 0
      · rw [if_pos spent]
        intro send member
        cases member
      rw [if_neg spent]
      have reads := aligned.read (min remaining 256)
      rcases reads.next with ⟨after, place, _⟩
      generalize f.spool.read f.disk f.cursor (min remaining 256) = batch at *
      by_cases empty : batch.1.isEmpty = true
      · rw [if_pos empty]
        intro send member
        cases member
      · rw [if_neg empty]
        have now : ∀ send ∈ (offer answers made batch.1).1, Offered answers f.disk send :=
          offer_offered reads.entries
        dsimp only
        split
        case h_1 position full => exact now
        case h_2 none' =>
          intro send member
          rcases List.mem_append.mp member with sent | later
          · exact now send sent
          · exact ih _ _ (f := f.send (offer answers made batch.1).1 batch.2) place send later

section Sent

variable {spool : Spool} {seq after budget : Nat} {sends : List Send}

theorem queued_single_full {send : Send} (full : send.outcome = .full) : queued [send] = [] := by
  simp [queued, full]

theorem queued_all (taken : ∀ send ∈ sends, send.outcome = .queued) :
    queued sends = sends.map (·.entry.seq) := by
  rw [queued, List.filter_eq_self.mpr fun send member => decide_eq_true (taken send member)]

theorem Sends.offers (sent : Sends spool seq budget sends after) :
    ∃ rest, sends.map (·.entry.seq) ++ rest = spool.waitingFrom seq ∧
      ∀ front last others, sends = front ++ last :: others →
        queued front = front.map (·.entry.seq) := by
  cases sent.stops with
  | ran taken _ =>
      refine ⟨spool.waitingFrom after, ?_, ?_⟩
      · rw [← queued_all taken, sent.front]
      · intro front last others split
        apply queued_all
        intro send member
        exact taken send (split ▸ List.mem_append_left _ member)
  | @full before last whole taken stopped first =>
      rcases List.head?_eq_some_iff.mp first with ⟨rest, stands⟩
      refine ⟨rest, ?_, ?_⟩
      · calc
          sends.map (·.entry.seq) ++ rest = queued sends ++ last.entry.seq :: rest := by
            rw [whole, queued_append, queued_all taken, queued_single_full stopped,
              List.map_append, List.append_nil, List.append_assoc]
            rfl
          _ = spool.waitingFrom seq := by rw [← stands, sent.front]
      · intro front final others split
        apply queued_all
        intro send member
        rw [whole] at split
        have shorter : front.length ≤ before.length := by
          have lengths := congrArg List.length split
          simp only [List.length_append, List.length_cons, List.length_nil] at lengths
          omega
        rcases List.append_eq_append_iff.mp split with ⟨more, isFront, _⟩ | ⟨more, isBefore, _⟩
        · have none' : more = [] := by
            rw [isFront, List.length_append] at shorter
            exact List.length_eq_zero_iff.mp (by omega)
          rw [isFront, none', List.append_nil] at member
          exact taken send member
        · rw [isBefore] at taken
          exact taken send (List.mem_append_left _ member)

theorem mem_front_of_lt {front rest : List Nat} {p q : Nat}
    (sorted : (front ++ q :: rest).Pairwise (· < ·)) (member : p ∈ front ++ q :: rest)
    (less : p < q) : p ∈ front := by
  rcases List.mem_append.mp member with before | later
  · exact before
  · have behind := (List.pairwise_cons.mp (List.pairwise_append.mp sorted).2.1).1
    rcases List.mem_cons.mp later with rfl | last
    · omega
    · have above := behind p last
      omega

/-- What waits and is below something sent now was sent before or is sent now. -/
theorem Sends.covers (sent : Sends spool seq budget sends after) (inOrder : InOrder spool)
    {before : List Nat} (behind : ∀ p ∈ spool.waiting, p < seq → p ∈ before) {p q : Nat}
    (now : p ∈ queued sends) (waits : q ∈ spool.waiting) (less : q < p) :
    q ∈ before ++ queued sends := by
  by_cases early : q < seq
  · exact List.mem_append_left _ (behind q waits early)
  · rcases List.append_of_mem now with ⟨front, rest, split⟩
    have whole : front ++ p :: (rest ++ spool.waitingFrom after) = spool.waitingFrom seq := by
      rw [← sent.front, split, List.append_assoc]
      rfl
    have sorted : (front ++ p :: (rest ++ spool.waitingFrom after)).Pairwise (· < ·) := by
      rw [whole]
      exact inOrder.sorted.sublist List.filter_sublist
    have member : q ∈ front ++ p :: (rest ++ spool.waitingFrom after) := by
      rw [whole]
      exact List.mem_filter.mpr ⟨waits, decide_eq_true (Nat.le_of_not_lt early)⟩
    have inFront := mem_front_of_lt sorted member less
    rw [split]
    exact List.mem_append_right _ (List.mem_append_left _ inFront)

theorem Sends.sorted (sent : Sends spool seq budget sends after) (inOrder : InOrder spool) :
    (queued sends).Pairwise (· < ·) := by
  have whole : (spool.waitingFrom seq).Pairwise (· < ·) :=
    inOrder.sorted.sublist List.filter_sublist
  rw [← sent.front] at whole
  exact (List.pairwise_append.mp whole).1

theorem Sends.waits (sent : Sends spool seq budget sends after) {p : Nat}
    (now : p ∈ queued sends) : p ∈ spool.waiting := by
  have inWhole : p ∈ spool.waitingFrom seq := by
    rw [← sent.front]
    exact List.mem_append_left _ now
  exact (List.mem_filter.mp inWhole).1

theorem Sends.passed (sent : Sends spool seq budget sends after) {before : List Nat}
    (behind : ∀ p ∈ spool.waiting, p < seq → p ∈ before) {p : Nat} (waits : p ∈ spool.waiting)
    (less : p < after) : p ∈ before ++ queued sends := by
  by_cases early : p < seq
  · exact List.mem_append_left _ (behind p waits early)
  · have inWhole : p ∈ queued sends ++ spool.waitingFrom after := by
      rw [sent.front]
      exact List.mem_filter.mpr ⟨waits, decide_eq_true (Nat.le_of_not_lt early)⟩
    rcases List.mem_append.mp inWhole with now | later
    · exact List.mem_append_right _ now
    · have above : after ≤ p := of_decide_eq_true (List.mem_filter.mp later).2
      omega

theorem Sends.all (sent : Sends spool seq budget sends after)
    (taken : ∀ send ∈ sends, send.outcome = .queued) :
    min budget (spool.waitingFrom seq).length ≤ (queued sends).length := by
  have total := congrArg List.length sent.front
  rw [List.length_append] at total
  cases sent.stops with
  | ran _ spent =>
      rcases spent with all | nothing
      · omega
      · rw [nothing, List.length_nil] at total
        omega
  | @full before last whole _ stopped _ =>
      have took : last.outcome = .queued := by
        apply taken
        rw [whole]
        exact List.mem_append_right _ (List.mem_singleton_self _)
      rw [stopped] at took
      cases took

end Sent

/-- A call of pump: the reports are processed, then what waits is sent on from the position, or from
the oldest that waits when a delivery failed. -/
structure Pumps (f : Forwarder) (seq budget : Nat) (reports : List (Nat × Bool))
    (answers : Nat → SendOutcome) (pumped : Forwarder × List Send) : Prop where
  processed : Processed f pumped.1 reports
  offered : ∀ send ∈ pumped.2, Offered answers pumped.1.disk send
  sends : ∃ first last, Aligned pumped.1.disk pumped.1.spool pumped.1.cursor last ∧
    ((first = seq ∧ (reports.any fun r => !r.2) = false) ∨
      pumped.1.spool.waitingFrom first = pumped.1.spool.waiting) ∧
    Sends pumped.1.spool first budget pumped.2 last

theorem pump_pumps {f : Forwarder} {seq : Nat} (aligned : Aligned f.disk f.spool f.cursor seq)
    (budget : Nat) (reports : List (Nat × Bool)) (answers : Nat → SendOutcome) :
    Pumps f seq budget reports answers (f.pump budget reports answers) := by
  rcases processReports_processed aligned reports with ⟨processed, first, stands, position⟩
  rcases sendLoop_sends answers budget 0 budget (Nat.le_refl budget) stands with
    ⟨cursor, last, same, after, sends⟩
  change (f.pump budget reports answers).1 =
    (f.processReports reports).send (f.pump budget reports answers).2 cursor at same
  change Sends _ first budget (f.pump budget reports answers).2 last at sends
  have offered := sendLoop_offered answers budget 0 budget stands
  have spool : (f.pump budget reports answers).1.spool = (f.processReports reports).spool := by
    rw [same]
    rfl
  constructor
  · rw [same]
    exact ⟨processed.gatewayId, processed.loss, processed.lost, processed.next,
      processed.waiting, processed.contained, processed.entries⟩
  · rw [same]
    exact offered
  · rw [spool]
    refine ⟨first, last, ?_, position, sends⟩
    rw [same]
    exact after

end PiAgents.Spooling
