import PiAgents.Capture.Flushes
import PiAgents.Lib.Runs

/-! Which packets a record was built from, over a whole run of the flow table, and what becomes
of an attempt once it was answered. -/

namespace PiAgents.Capture

inductive CaptureEvent where
  | observe (obs : Observation)
  | flushDue (nowUs : Int)
  | flushAll

structure Seen where
  obs : Observation
  direction : Direction

/-- A record and the positions of the packets it was built from. -/
structure Reported where
  record : FlowRecord
  packets : List Nat

/-- The table with what was fed to it so far: the packets in order, the positions of the packets
in each open flow, and the records reported. -/
structure Trace where
  table : FlowTable
  seen : List Seen
  packets : FlowKey → List Nat
  reported : List Reported

namespace Trace

def start (table : FlowTable) : Trace := ⟨table, [], fun _ => [], []⟩

def report (trace : Trace) (table : FlowTable) (out : List FlowRecord) : Trace where
  table := table
  seen := trace.seen
  packets key := if ∃ record ∈ out, record.key = key then [] else trace.packets key
  reported := trace.reported ++ out.map fun record => ⟨record, trace.packets record.key⟩

def step (trace : Trace) : CaptureEvent → Trace
  | .observe obs =>
    let (table, out, _) := trace.table.upsert obs
    let reported := trace.report table out
    { reported with
      seen := trace.seen ++ [⟨obs, (trace.table.landing obs).direction⟩]
      packets := Function.update reported.packets obs.key
        (reported.packets obs.key ++ [trace.seen.length]) }
  | .flushDue nowUs =>
    let (table, out) := trace.table.flushDue nowUs
    trace.report table out
  | .flushAll =>
    let (table, out) := trace.table.flushAll
    trace.report table out

end Trace

def Observation.attempts (obs : Observation) (initiator : Direction) : Bool :=
  obs.syn && !obs.ack && obs.sender == initiator

def Observation.answers (obs : Observation) (initiator : Direction) : Bool :=
  obs.syn && obs.ack && obs.sender != initiator

/-- A SYN-ACK of this key was recorded at this position, and the side it answered has sent no
SYN after it, up to and including the position `last`. -/
def AnsweredUntil (seen : List Seen) (key : FlowKey) (answer last : Nat) : Prop :=
  ∃ synAck ∈ seen[answer]?, synAck.obs.key = key ∧ synAck.obs.answers synAck.direction ∧
    ∀ position ≤ last, answer < position → ∀ later ∈ seen[position]?,
      later.obs.key = key → ¬ later.obs.attempts synAck.direction

instance (seen : List Seen) (key : FlowKey) (answer last : Nat) :
    Decidable (AnsweredUntil seen key answer last) :=
  inferInstanceAs (Decidable (∃ synAck ∈ seen[answer]?, _))

def AttemptOutcome.failed (outcome : AttemptOutcome) : Prop :=
  outcome = .rejected ∨ outcome = .unanswered

instance (outcome : AttemptOutcome) : Decidable outcome.failed := instDecidableOr

/-- A flow built from these packets of the key reports no failed attempt if they all came after
an answer, with no new attempt among them or before them. -/
def Honest (seen : List Seen) (key : FlowKey) (packets : List Nat) (outcome : AttemptOutcome) :
    Prop :=
  ∀ answer, (∀ position ∈ packets, answer < position ∧ AnsweredUntil seen key answer position) →
    ¬ outcome.failed

def Trace.NeverFailsAnswered (trace : Trace) : Prop :=
  ∀ reported ∈ trace.reported, Honest trace.seen reported.record.key reported.packets
    reported.record.attemptOutcome

/-- What the packet would change about a flow that holds no SYN-ACK of the responder: nothing, or
it brings one, or it neither marks the attempt as rejected nor is an attempt itself. -/
def MicroFlow.Spares (flow : MicroFlow) (obs : Observation) : Prop :=
  flow.established ∨ obs.answers flow.direction ∨
    (¬ (obs.rst ∧ obs.sender ≠ flow.direction) ∧ obs.rejection = false ∧
      ¬ (obs.key.protocol = .tcp ∧ obs.attempts flow.direction))

instance (flow : MicroFlow) (obs : Observation) : Decidable (flow.Spares obs) :=
  instDecidableOr

/-- The positions of the packets already in the flow that the packet lands in. -/
def Trace.landingPackets (trace : Trace) (obs : Observation) : List Nat :=
  match trace.table.get obs.key with
  | some flow => if trace.table.due flow obs.timestampUs then [] else trace.packets obs.key
  | none => []

/-- A packet of an answered attempt spares the flow it lands in, when that flow began after the
answer. -/
def Trace.SparesAnswered (trace : Trace) : CaptureEvent → Prop
  | .observe obs =>
    ∀ answer < trace.seen.length, (∀ position ∈ trace.landingPackets obs, answer < position) →
      AnsweredUntil (trace.seen ++ [⟨obs, (trace.table.landing obs).direction⟩]) obs.key answer
        trace.seen.length →
      (trace.table.landing obs).Spares obs
  | .flushDue _ => True
  | .flushAll => True

instance (trace : Trace) (event : CaptureEvent) : Decidable (trace.SparesAnswered event) := by
  cases event <;> unfold Trace.SparesAnswered <;> infer_instance

section

variable (flow : MicroFlow) (obs : Observation)

theorem from_initiator_iff : flow.fromInitiator obs = (obs.sender == flow.direction) := by
  unfold MicroFlow.fromInitiator Observation.sender
  cases obs.fromDevice <;> cases flow.direction <;> rfl

theorem record_established :
    (flow.record obs).established = (flow.established || obs.answers flow.direction) := by
  simp only [MicroFlow.record, Observation.answers, from_initiator_iff, bne]

theorem record_rejected :
    (flow.record obs).rejected =
      (flow.rejected || (obs.rst && obs.sender != flow.direction) || obs.rejection) := by
  simp only [MicroFlow.record, from_initiator_iff, bne]

theorem record_initiating_syn :
    (flow.record obs).initiatingSyn = (flow.initiatingSyn || obs.attempts flow.direction) := by
  simp only [MicroFlow.record, Observation.attempts, from_initiator_iff]

theorem attempt_failed_iff (protocol : Protocol) :
    (flow.attemptOutcome protocol).failed ↔
      flow.established = false ∧ (flow.rejected ∨ (protocol = .tcp ∧ flow.initiatingSyn)) := by
  unfold MicroFlow.attemptOutcome AttemptOutcome.failed
  cases flow.established <;> cases flow.rejected <;>
    by_cases syn : protocol = .tcp ∧ flow.initiatingSyn <;> simp [syn]

theorem new_not_failed (direction : Option Direction) (protocol : Protocol) :
    ¬ ((MicroFlow.new obs direction).attemptOutcome protocol).failed := by
  simp [attempt_failed_iff, MicroFlow.new]

theorem spared_not_failed (intact : ¬ (flow.attemptOutcome obs.key.protocol).failed)
    (spares : flow.Spares obs) :
    ¬ ((flow.record obs).attemptOutcome obs.key.protocol).failed := by
  rw [attempt_failed_iff] at intact ⊢
  rw [record_established, record_rejected, record_initiating_syn]
  rintro ⟨unestablished, marked⟩
  obtain ⟨notEstablished, noAnswer⟩ := Bool.or_eq_false_iff.mp unestablished
  have wasIntact : ¬ (flow.rejected ∨ (obs.key.protocol = .tcp ∧ flow.initiatingSyn)) :=
    fun failed => intact ⟨notEstablished, failed⟩
  rcases spares with established | answer | ⟨noReset, noRejection, noAttempt⟩
  · rw [established] at notEstablished
    cases notEstablished
  · rw [answer] at noAnswer
    cases noAnswer
  · rcases marked with rejected | ⟨tcp, attempted⟩
    · simp only [Bool.or_eq_true, Bool.and_eq_true, bne_iff_ne, noRejection, Bool.false_eq_true,
        or_false] at rejected
      exact rejected.elim (fun old => wasIntact (Or.inl old)) noReset
    · exact (Bool.or_eq_true_iff.mp attempted).elim (fun old => wasIntact (Or.inr ⟨tcp, old⟩))
        fun new => noAttempt ⟨tcp, new⟩

end

section

variable {seen : List Seen} {key : FlowKey} {packets : List Nat} {outcome : AttemptOutcome}

theorem AnsweredUntil.of_append {more : List Seen} {answer last : Nat}
    (placed : last < seen.length) (before : answer < last)
    (answered : AnsweredUntil (seen ++ more) key answer last) :
    AnsweredUntil seen key answer last := by
  obtain ⟨synAck, recorded, ofKey, answers, noSyn⟩ := answered
  refine ⟨synAck, ?_, ofKey, answers, ?_⟩
  · rwa [List.getElem?_append_left (by omega)] at recorded
  · intro position upTo after later recordedLater
    refine noSyn position upTo after later ?_
    rwa [List.getElem?_append_left (by omega)]

theorem AnsweredUntil.mono {answer first last : Nat} (earlier : first ≤ last)
    (answered : AnsweredUntil seen key answer last) : AnsweredUntil seen key answer first := by
  obtain ⟨synAck, recorded, ofKey, answers, noSyn⟩ := answered
  exact ⟨synAck, recorded, ofKey, answers, fun position upTo =>
    noSyn position (upTo.trans earlier)⟩

theorem Honest.append {more : List Seen} (placed : ∀ position ∈ packets, position < seen.length)
    (honest : Honest seen key packets outcome) : Honest (seen ++ more) key packets outcome := by
  intro answer after
  refine honest answer fun position member => ?_
  obtain ⟨before, answered⟩ := after position member
  exact ⟨before, answered.of_append (placed position member) before⟩

end

namespace Trace

structure Invariant (trace : Trace) : Prop where
  placed : ∀ key, ∀ position ∈ trace.packets key, position < trace.seen.length
  unopened : ∀ key, trace.table.get key = none → trace.packets key = []
  openHonest : ∀ key flow, trace.table.get key = some flow →
    Honest trace.seen key (trace.packets key) (flow.attemptOutcome key.protocol)
  reportedPlaced : ∀ reported ∈ trace.reported,
    ∀ position ∈ reported.packets, position < trace.seen.length
  honest : trace.NeverFailsAnswered

theorem start_invariant (capacity : Nat) (capacity_pos : 0 < capacity) (idleUs activeUs : Int) :
    (start (.withTimeouts capacity capacity_pos idleUs activeUs)).Invariant where
  placed := by simp [start]
  unopened := by simp [start]
  openHonest := by
    intro key flow present
    have looked : (∅ : Entries).lookup key = some flow := present
    rw [AList.lookup_empty] at looked
    cases looked
  reportedPlaced := by simp [start]
  honest := by simp [start, NeverFailsAnswered]

@[simp] theorem report_table (trace : Trace) (table : FlowTable) (out : List FlowRecord) :
    (trace.report table out).table = table := rfl

theorem report_placed (trace : Trace) (table : FlowTable) (out : List FlowRecord) (key : FlowKey)
    (placed : ∀ position ∈ trace.packets key, position < trace.seen.length) :
    ∀ position ∈ (trace.report table out).packets key, position < trace.seen.length := by
  intro position member
  simp only [report] at member
  split at member
  · cases member
  · exact placed position member

theorem report_honest (trace : Trace) (invariant : trace.Invariant) (table : FlowTable)
    (out : List FlowRecord)
    (reported : ∀ record ∈ out, trace.table.get record.key = some record.flow ∧
      record.attemptOutcome = record.flow.attemptOutcome record.key.protocol) :
    ∀ entry ∈ (trace.report table out).reported,
      (∀ position ∈ entry.packets, position < trace.seen.length) ∧
        Honest trace.seen entry.record.key entry.packets entry.record.attemptOutcome := by
  intro entry member
  rcases List.mem_append.mp member with old | new
  · exact ⟨invariant.reportedPlaced entry old, invariant.honest entry old⟩
  · obtain ⟨record, emitted, rfl⟩ := List.mem_map.mp new
    obtain ⟨present, outcome⟩ := reported record emitted
    refine ⟨invariant.placed record.key, ?_⟩
    rw [outcome]
    exact invariant.openHonest record.key record.flow present

theorem closes_invariant (trace : Trace) (invariant : trace.Invariant) (table : FlowTable)
    (out : List FlowRecord) (closes : trace.table.Closes table out) :
    (trace.report table out).Invariant := by
  have reported := report_honest trace invariant table out closes.reported
  refine ⟨fun key => report_placed trace table out key (invariant.placed key), ?_, ?_,
    fun entry member => (reported entry member).1, fun entry member => (reported entry member).2⟩
  · intro key absent
    simp only [report]
    split
    · rfl
    · next unreported =>
        push Not at unreported
        refine invariant.unopened key ?_
        rwa [← closes.kept key unreported]
  · intro key flow present
    by_cases own : ∃ record ∈ out, record.key = key
    · obtain ⟨record, emitted, rfl⟩ := own
      have absent := closes.closed record emitted
      rw [show table.get record.key = some flow from present] at absent
      cases absent
    · have unchanged : (trace.report table out).packets key = trace.packets key := if_neg own
      push Not at own
      rw [unchanged]
      refine invariant.openHonest key flow ?_
      rwa [← closes.kept key own]

theorem landing_packets_eq (trace : Trace) (invariant : trace.Invariant) (obs : Observation) :
    (trace.report (trace.table.upsert obs).1 (trace.table.upsert obs).2.1).packets obs.key =
      trace.landingPackets obs := by
  have due := (FlowTable.upsert_upserts trace.table obs).due
  simp only [report, landingPackets]
  cases present : trace.table.get obs.key with
  | none =>
      rw [invariant.unopened obs.key present]
      split <;> rfl
  | some flow =>
      simp only [present, Option.some.injEq, exists_eq_left'] at due
      simp only [due]

theorem landing_honest (trace : Trace) (invariant : trace.Invariant) (obs : Observation) :
    Honest trace.seen obs.key (trace.landingPackets obs)
      ((trace.table.landing obs).attemptOutcome obs.key.protocol) := by
  cases present : trace.table.get obs.key with
  | none =>
      simp only [landingPackets, FlowTable.landing, present]
      exact fun _ _ => new_not_failed obs _ _
  | some flow =>
      simp only [landingPackets, FlowTable.landing, present]
      split
      · exact fun _ _ => new_not_failed obs _ _
      · exact invariant.openHonest obs.key flow present

theorem recorded_honest (trace : Trace) (invariant : trace.Invariant) (obs : Observation)
    (spares : trace.SparesAnswered (.observe obs)) :
    Honest (trace.seen ++ [⟨obs, (trace.table.landing obs).direction⟩]) obs.key
      (trace.landingPackets obs ++ [trace.seen.length])
      (((trace.table.landing obs).record obs).attemptOutcome obs.key.protocol) := by
  intro answer after
  have last := after trace.seen.length (by simp)
  have early : ∀ position ∈ trace.landingPackets obs, position < trace.seen.length := by
    rw [← landing_packets_eq trace invariant obs]
    exact report_placed trace _ _ obs.key (invariant.placed obs.key)
  apply spared_not_failed
  · have grown : Honest (trace.seen ++ [⟨obs, (trace.table.landing obs).direction⟩]) obs.key
        (trace.landingPackets obs) ((trace.table.landing obs).attemptOutcome obs.key.protocol) :=
      (landing_honest trace invariant obs).append early
    refine grown answer fun position member => ?_
    exact after position (List.mem_append_left _ member)
  · refine spares answer last.1 (fun position member => ?_) last.2
    exact (after position (List.mem_append_left _ member)).1

theorem step_invariant (trace : Trace) (event : CaptureEvent) (invariant : trace.Invariant)
    (spares : trace.SparesAnswered event) : (trace.step event).Invariant := by
  cases event with
  | flushDue nowUs =>
      exact closes_invariant trace invariant _ _ (FlowTable.flush_due_closes trace.table nowUs)
  | flushAll => exact closes_invariant trace invariant _ _ (FlowTable.flush_all_closes trace.table)
  | observe obs =>
      have upserts := FlowTable.upsert_upserts trace.table obs
      have reported := report_honest trace invariant (trace.table.upsert obs).1 _ upserts.reported
      have placed := fun key => report_placed trace (trace.table.upsert obs).1
        (trace.table.upsert obs).2.1 key (invariant.placed key)
      refine ⟨?_, ?_, ?_, ?_, ?_⟩
      · intro key position member
        simp only [step, List.length_append, List.length_singleton] at member ⊢
        by_cases own : key = obs.key
        · subst own
          rw [Function.update_self, List.mem_append, List.mem_singleton] at member
          rcases member with earlier | rfl
          · exact (placed obs.key position earlier).trans (Nat.lt_succ_self _)
          · exact Nat.lt_succ_self _
        · rw [Function.update_of_ne own] at member
          exact (placed key position member).trans (Nat.lt_succ_self _)
      · intro key absent
        simp only [step, report_table] at absent ⊢
        by_cases own : key = obs.key
        · rw [own, upserts.own] at absent
          cases absent
        · rw [Function.update_of_ne own]
          simp only [report]
          split
          · rfl
          · next unreported =>
              push Not at unreported
              refine invariant.unopened key ?_
              rwa [← upserts.kept key own unreported]
      · intro key flow present
        simp only [step, report_table] at present ⊢
        by_cases own : key = obs.key
        · subst own
          rw [upserts.own, Option.some.injEq] at present
          rw [Function.update_self, landing_packets_eq trace invariant obs, ← present]
          exact recorded_honest trace invariant obs spares
        · rw [Function.update_of_ne own]
          by_cases closed : ∃ record ∈ (trace.table.upsert obs).2.1, record.key = key
          · obtain ⟨record, emitted, rfl⟩ := closed
            rw [upserts.closed record emitted own] at present
            cases present
          · have unchanged : (trace.report (trace.table.upsert obs).1
                (trace.table.upsert obs).2.1).packets key = trace.packets key := if_neg closed
            push Not at closed
            rw [upserts.kept key own closed] at present
            rw [unchanged]
            exact (invariant.openHonest key flow present).append (invariant.placed key)
      · intro entry member
        have placedEntry := (reported entry member).1
        intro position inEntry
        simp only [step, List.length_append, List.length_singleton]
        exact (placedEntry position inEntry).trans (Nat.lt_succ_self _)
      · intro entry member
        exact ((reported entry member).2).append (reported entry member).1

theorem unspared_failed (flow : MicroFlow) (obs : Observation) (marks : ¬ flow.Spares obs) :
    ((flow.record obs).attemptOutcome obs.key.protocol).failed := by
  simp only [MicroFlow.Spares, not_or, Bool.not_eq_true] at marks
  obtain ⟨unestablished, noAnswer, marked⟩ := marks
  rw [attempt_failed_iff, record_established, record_rejected, record_initiating_syn,
    unestablished, noAnswer]
  refine ⟨rfl, ?_⟩
  by_cases reset : obs.rst ∧ obs.sender ≠ flow.direction
  · exact Or.inl (by simp [reset.1, bne_iff_ne.mpr reset.2])
  · by_cases rejection : obs.rejection = true
    · exact Or.inl (by simp [rejection])
    · rw [Bool.not_eq_true] at rejection
      have attempt : obs.key.protocol = .tcp ∧ obs.attempts flow.direction := by
        by_contra noAttempt
        exact marked ⟨reset, rejection, noAttempt⟩
      exact Or.inr ⟨attempt.1, by simp [attempt.2]⟩

/-- The condition is sharp: if a packet does not spare the flow of its answered attempt, a flush
right after it reports a failed attempt. -/
theorem unspared_flush_dishonest (trace : Trace) (invariant : trace.Invariant) (obs : Observation)
    (marks : ¬ trace.SparesAnswered (.observe obs)) :
    ¬ ((trace.step (.observe obs)).step .flushAll).NeverFailsAnswered := by
  simp only [SparesAnswered, not_forall] at marks
  obtain ⟨answer, seenBefore, after, answered, marks⟩ := marks
  have upserts := FlowTable.upsert_upserts trace.table obs
  obtain ⟨record, emitted, ofKey, ofFlow⟩ :=
    FlowTable.flush_all_reports _ obs.key _ upserts.own
  have closes := FlowTable.flush_all_closes (trace.table.upsert obs).1
  have early : ∀ position ∈ trace.landingPackets obs, position < trace.seen.length := by
    rw [← landing_packets_eq trace invariant obs]
    exact report_placed trace _ _ obs.key (invariant.placed obs.key)
  have packets : (trace.step (.observe obs)).packets record.key =
      trace.landingPackets obs ++ [trace.seen.length] := by
    simp only [step, ofKey, Function.update_self, landing_packets_eq trace invariant obs]
  intro honest
  refine honest ⟨record, (trace.step (.observe obs)).packets record.key⟩ ?_ answer ?_ ?_
  · exact List.mem_append_right _ (List.mem_map.mpr ⟨record, emitted, rfl⟩)
  · simp only [packets, List.mem_append, List.mem_singleton]
    rintro position (member | rfl)
    · exact ⟨after position member, ofKey ▸ answered.mono (early position member).le⟩
    · exact ⟨seenBefore, ofKey ▸ answered⟩
  · rw [(closes.reported record emitted).2, ofFlow, ofKey]
    exact unspared_failed _ _ marks

end Trace

section

variable (capacity : Nat) (capacity_pos : 0 < capacity) (idleUs activeUs : Int)

/-- In a run whose packets all spare the answered attempts they belong to, no record built only
from packets after an answer reports a failed attempt. -/
theorem answered_never_fails (events : List CaptureEvent)
    (spares : Runs.Meets Trace.step Trace.SparesAnswered
      (.start (.withTimeouts capacity capacity_pos idleUs activeUs)) events) :
    (Runs.run Trace.step (.start (.withTimeouts capacity capacity_pos idleUs activeUs))
      events).NeverFailsAnswered :=
  (Runs.run_invariant Trace.step_invariant (Trace.start_invariant capacity capacity_pos _ _)
    spares).honest

end

/-- The client, 192.168.50.11, and a server on port 22. -/
def sshKey : FlowKey where
  deviceMac := .ofOctets 2 0 0 0 0 11
  deviceIp := .ofOctets 192 168 50 11
  remoteIp := .ofOctets 192 0 2 7
  devicePort := 40000
  remotePort := 22
  protocol := .tcp

def sshPacket (timestampUs : Int) (fromDevice : Bool) (tcpFlags : UInt8) : CaptureEvent :=
  .observe { key := sshKey, timestampUs, fromDevice, tcpFlags, bytes := 60, rejection := false
             dnsQuery := none }

def sshSession : List CaptureEvent :=
  [sshPacket 0 true tcpSyn, sshPacket 500 false (tcpSyn ||| tcpAck), .flushDue 1000500,
    sshPacket 2000000 false tcpAck, .flushDue 3000000]

/-- The handshake, and a reset by the server in the next micro-flow. -/
def sshReset : List CaptureEvent :=
  [sshPacket 0 true tcpSyn, sshPacket 500 false (tcpSyn ||| tcpAck), .flushDue 1000500,
    sshPacket 2000000 false tcpRst, .flushDue 3000000]

def captureStart : Trace := .start (.new defaultCapacity default_capacity_pos)

theorem answered_never_fails_session :
    (Runs.run Trace.step captureStart sshSession).NeverFailsAnswered :=
  answered_never_fails defaultCapacity default_capacity_pos defaultIdleUs defaultActiveUs sshSession
    (by decide)

/-- The reset is all there is in the second record, and it is reported as a rejected attempt. -/
theorem ssh_reset_reported_rejected :
    ¬ (Runs.run Trace.step captureStart sshReset).NeverFailsAnswered := by
  have reported : (Runs.run Trace.step captureStart sshReset).reported[1]?.map
      (fun entry => (entry.record.key, entry.packets, entry.record.attemptOutcome)) =
        some (sshKey, [2], .rejected) := by decide
  obtain ⟨entry, found, fields⟩ := Option.map_eq_some_iff.mp reported
  simp only [Prod.mk.injEq] at fields
  intro honest
  refine honest entry (List.mem_of_getElem? found) 1 ?_ (Or.inl fields.2.2)
  rw [fields.1, fields.2.1]
  decide

end PiAgents.Capture
