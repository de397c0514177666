import PiAgents.Spooling.Positions
import PiAgents.Spooling.Forwarder

/-! What a submission drops: the loss that an append returns says how many numbers went, and holds
their range and the times of their events. -/

namespace PiAgents.Spooling

/-- The files hold records of this list, numbered in order. -/
inductive Logged (written : List Entry) (disk : Disk) (spool : Spool) : Prop where
  | mk {log : Log} (layout : Layout disk spool log)
      (entries : ∀ kept ∈ log, ∀ entry ∈ kept.2, entry ∈ written)

/-- An append in numbers: those that went were the first that waited, and the loss tells of
them. -/
structure Loses (written : List Entry) (f after : Forwarder) (number : Nat)
    (loss : Option Loss) : Prop where
  same : after = { f with disk := after.disk, spool := after.spool }
  number : number = f.spool.nextSeq
  next : after.spool.nextSeq = f.spool.nextSeq + 1
  waiting : f.spool.waiting ++ [f.spool.nextSeq] =
    f.spool.gone after.spool ++ after.spool.waiting
  nothing : loss = none → f.spool.gone after.spool = []
  count : ∀ l, loss = some l → l.count = (f.spool.gone after.spool).length
  first : ∀ l, loss = some l → l.firstSeq ∈ f.spool.gone after.spool
  range : ∀ l, loss = some l → ∀ seq ∈ f.spool.gone after.spool, l.firstSeq ≤ seq ∧ seq ≤ l.lastSeq
  times : ∀ l, loss = some l → ∀ seq ∈ f.spool.gone after.spool, ∀ entry ∈ written,
    entry.seq = seq → l.firstEventTimeMs ≤ entry.eventTimeMs ∧ entry.eventTimeMs ≤ l.lastEventTimeMs

namespace Logged

variable {written : List Entry} {disk : Disk} {spool : Spool}

theorem inOrder (logged : Logged written disk spool) : InOrder spool := by
  cases logged with
  | mk layout entries => exact layout.inOrder

theorem of_agrees {log : Log} (agrees : Agrees disk spool log) :
    Logged disk.entries disk spool := by
  refine .mk agrees.asRead.toLayout ?_
  intro kept member entry held
  rw [agrees.asRead.disk_entries,
    stored_of_recordable (Log.asRead_recordable agrees.readable)]
  exact List.mem_flatMap.mpr ⟨kept, member, held⟩

theorem ack (logged : Logged written disk spool) (seq : Nat) :
    Logged written (disk.applyAll (spool.ack seq).1) (spool.ack seq).2 ∧
      Acknowledges spool seq (spool.ack seq).2 := by
  cases logged with
  | @mk log layout entries =>
      rcases layout.ack seq with ⟨front, rest, parts, _, after⟩
      refine ⟨.mk after ?_, layout.acknowledges seq⟩
      intro kept member entry held
      have inWhole : kept ∈ log.acknowledge seq := by
        rw [parts]
        exact List.mem_append_right _ member
      rcases List.mem_map.mp inWhole with ⟨old, inLog, rfl⟩
      apply entries old inLog
      by_cases marked : old.1.contains seq = true
      · simpa only [marked, if_true] using held
      · simpa only [marked] using held

theorem sync (logged : Logged written disk spool) :
    Logged written (disk.applyAll spool.sync) spool := by
  cases logged with
  | mk layout entries =>
      exact .mk ⟨layout.ordered, layout.segments, layout.files, layout.writer, layout.total,
        layout.reserved, layout.fits⟩ entries

theorem entry_of_unacked {log : Log} {next : Nat} (ordered : log.Ordered next)
    (entries : ∀ kept ∈ log, ∀ entry ∈ kept.2, entry ∈ written)
    (numbered : (written.map (·.seq)).Nodup) {seq : Nat} (waits : seq ∈ log.unackedSeqs) :
    ∃ kept ∈ log, 0 < kept.1.unacked ∧
      ∀ entry ∈ written, entry.seq = seq → entry ∈ kept.2 := by
  rcases (log.mem_unackedSeqs seq).mp waits with ⟨kept, member, unacked⟩
  have holds := ordered.holds kept member
  refine ⟨kept, member, ?_, ?_⟩
  · rw [holds.sound.unacked]
    exact List.length_pos_of_mem unacked
  · intro entry inWritten same
    have inSeqs : seq ∈ kept.2.map (·.seq) := by
      rw [holds.numbered]
      exact List.mem_of_mem_filter unacked
    rcases List.mem_map.mp inSeqs with ⟨other, held, isSeq⟩
    have equal : entry = other := List.inj_on_of_nodup_map numbered inWritten
      (entries kept member other held) (same.trans isSeq.symm)
    rw [equal]
    exact held

end Logged

theorem Forwarder.append_loses {f after : Forwarder} {event : Spool.Event} {number : Nat}
    {loss : Option Loss} {written : List Entry} (logged : Logged written f.disk f.spool)
    (numbered : (written.map (·.seq)).Nodup)
    (given : f.append event = some (after, number, loss)) :
    Logged (written ++ [event.entry number]) after.disk after.spool ∧
      Loses written f after number loss := by
  rcases Option.map_eq_some_iff.mp given with ⟨⟨spool, answer⟩, isAnswer, same⟩
  cases same
  cases logged with
  | @mk log layout entries =>
      rcases layout.appends isAnswer with ⟨dropped, later, appends, fromLog, after⟩
      have isNext : number = f.spool.nextSeq := appends.seq
      have gone : f.spool.gone spool = dropped.unackedSeqs := appends.gone
      have sorted := layout.inOrder.dropped_sorted appends
      have reported := appends.reported
      rcases appends.front with ⟨rest, split⟩
      have frontOrdered : dropped.Ordered f.spool.nextSeq := by
        have ordered := layout.ordered
        rw [split] at ordered
        exact ordered.front
      constructor
      · refine .mk after ?_
        intro kept member entry held
        rcases fromLog kept member entry held with new | ⟨old, inLog, inOld⟩
        · rw [isNext, new]
          exact List.mem_append_right _ (List.mem_singleton_self _)
        · exact List.mem_append_left _ (entries old inLog entry inOld)
      · refine ⟨rfl, isNext, appends.next, ?_, ?_, ?_, ?_, ?_, ?_⟩
        · change _ = f.spool.gone spool ++ spool.waiting
          rw [gone]
          exact appends.waiting
        · intro none'
          exact gone.trans (reported.1 none')
        · intro l isLoss
          exact (reported.2 l isLoss).count.trans (congrArg List.length gone.symm)
        · intro l isLoss
          change _ ∈ f.spool.gone spool
          rw [gone]
          exact List.mem_of_mem_head? (reported.2 l isLoss).first
        · intro l isLoss seq member
          change seq ∈ f.spool.gone spool at member
          rw [gone] at member
          exact ⟨sorted_head_le sorted (reported.2 l isLoss).first seq member,
            sorted_le_last sorted (reported.2 l isLoss).last seq member⟩
        · intro l isLoss seq member entry inWritten isSeq
          change seq ∈ f.spool.gone spool at member
          rw [gone] at member
          have inDropped : ∀ kept ∈ dropped, ∀ entry ∈ kept.2, entry ∈ written := by
            intro kept inFront
            apply entries kept
            rw [split]
            exact List.mem_append_left _ inFront
          rcases Logged.entry_of_unacked frontOrdered inDropped numbered member with
            ⟨kept, inFront, waits, record⟩
          exact (reported.2 l isLoss).times kept inFront waits entry
            (record entry inWritten isSeq)

end PiAgents.Spooling
