import PiAgents.Capture.Attempts

/-! The outcome of a micro-flow against what its two sides sent. -/

namespace PiAgents.Capture

/-- A RST, or an ICMP unreachable, from the side that did not initiate. -/
def Observation.refuses (obs : Observation) (initiator : Direction) : Bool :=
  (obs.rst || obs.rejection) && obs.sender != initiator

/-- The outcome that follows from what the responder sent, and then from what the initiator did. -/
def outcomeOf (protocol : Protocol) (initiator : Direction) (packets : List Observation) :
    AttemptOutcome :=
  if packets.any fun obs => obs.answers initiator then .established
  else if packets.any fun obs => obs.refuses initiator then .rejected
  else if protocol = .tcp ∧ packets.any fun obs => obs.attempts initiator then .unanswered
  else .notApplicable

def Observation.retracts (obs : Observation) (initiator : Direction) : Bool :=
  obs.rejection && obs.sender == initiator

/-- Where the initiator sent an ICMP unreachable, the responder has also answered or refused. -/
def NoRetraction (initiator : Direction) (packets : List Observation) : Prop :=
  (packets.any fun obs => obs.retracts initiator) = true →
    (packets.any fun obs => obs.answers initiator) = true ∨
      (packets.any fun obs => obs.refuses initiator) = true

instance (initiator : Direction) (packets : List Observation) :
    Decidable (NoRetraction initiator packets) :=
  inferInstanceAs (Decidable (_ → _))

section

variable (packets : List Observation) (flow : MicroFlow)

private theorem foldl_established :
    (packets.foldl MicroFlow.record flow).established =
      (flow.established || packets.any fun obs => obs.answers flow.direction) := by
  induction packets generalizing flow with
  | nil => exact (Bool.or_false _).symm
  | cons obs rest ih =>
      have direction : (flow.record obs).direction = flow.direction := rfl
      rw [List.foldl_cons, ih, record_established, direction, List.any_cons, Bool.or_assoc]

theorem record_rejected_eq (obs : Observation) :
    (flow.record obs).rejected =
      (flow.rejected || (obs.refuses flow.direction || obs.retracts flow.direction)) := by
  rw [record_rejected, Observation.refuses, Observation.retracts, bne]
  cases flow.rejected <;> cases obs.rst <;> cases obs.rejection <;>
    cases obs.sender == flow.direction <;> rfl

private theorem foldl_rejected :
    (packets.foldl MicroFlow.record flow).rejected =
      (flow.rejected || packets.any fun obs =>
        obs.refuses flow.direction || obs.retracts flow.direction) := by
  induction packets generalizing flow with
  | nil => exact (Bool.or_false _).symm
  | cons obs rest ih =>
      have direction : (flow.record obs).direction = flow.direction := rfl
      rw [List.foldl_cons, ih, record_rejected_eq, direction, List.any_cons, Bool.or_assoc]

private theorem foldl_initiatingSyn :
    (packets.foldl MicroFlow.record flow).initiatingSyn =
      (flow.initiatingSyn || packets.any fun obs => obs.attempts flow.direction) := by
  induction packets generalizing flow with
  | nil => exact (Bool.or_false _).symm
  | cons obs rest ih =>
      have direction : (flow.record obs).direction = flow.direction := rfl
      rw [List.foldl_cons, ih, record_initiating_syn, direction, List.any_cons, Bool.or_assoc]

end

private theorem any_or (packets : List Observation) (first second : Observation → Bool) :
    (packets.any fun obs => first obs || second obs) = (packets.any first || packets.any second) := by
  induction packets with
  | nil => rfl
  | cons obs rest ih =>
      rw [List.any_cons, List.any_cons, List.any_cons, ih]
      cases first obs <;> cases second obs <;> cases rest.any first <;> cases rest.any second <;> rfl

theorem foldl_attemptOutcome (packets : List Observation) (first : Observation)
    (known : Option Direction) (protocol : Protocol) :
    (packets.foldl MicroFlow.record (.new first known)).attemptOutcome protocol =
      if packets.any fun obs => obs.answers (initialDirection first known) then .established
      else if (packets.any fun obs => obs.refuses (initialDirection first known)) ||
          packets.any fun obs => obs.retracts (initialDirection first known) then .rejected
      else if protocol = .tcp ∧
          packets.any fun obs => obs.attempts (initialDirection first known) then .unanswered
      else .notApplicable := by
  have direction : (MicroFlow.new first known).direction = initialDirection first known := rfl
  rw [MicroFlow.attemptOutcome, foldl_established, foldl_rejected, foldl_initiatingSyn, direction,
    any_or]
  rfl

/-- The outcome follows the responder, unless only the initiator sent an ICMP unreachable. -/
theorem outcome_follows_responder_iff (first : Observation) (rest : List Observation)
    (known : Option Direction) (protocol : Protocol) :
    ((first :: rest).foldl MicroFlow.record (.new first known)).attemptOutcome protocol =
        outcomeOf protocol (initialDirection first known) (first :: rest) ↔
      NoRetraction (initialDirection first known) (first :: rest) := by
  rw [foldl_attemptOutcome, outcomeOf, NoRetraction]
  generalize first :: rest = packets
  generalize initialDirection first known = initiator
  cases answered : packets.any fun obs => obs.answers initiator with
  | true => simp only [if_true, true_or, implies_true]
  | false =>
      cases refused : packets.any fun obs => obs.refuses initiator with
      | true => simp only [Bool.true_or, if_true, or_true, implies_true]
      | false =>
          cases retracted : packets.any fun obs => obs.retracts initiator with
          | false => simp only [Bool.or_false, Bool.false_eq_true, false_implies]
          | true =>
              simp only [Bool.or_true, Bool.false_eq_true, if_false, if_true, or_self]
              constructor
              · intro same
                split at same
                · cases same
                · cases same
              · intro none
                exact (none trivial).elim

def snmpPacket (fromDevice rejection : Bool) : Observation where
  key :=
    { deviceMac := .ofOctets 2 0 0 0 0 1
      deviceIp := .ofOctets 192 168 50 10
      remoteIp := .ofOctets 203 0 113 7
      devicePort := 41000
      remotePort := 161
      protocol := .udp }
  timestampUs := 0
  fromDevice := fromDevice
  bytes := 60
  tcpFlags := 0
  rejection := rejection
  dnsQuery := none

/-- A device asks over UDP, is answered, and has closed its port by then. -/
theorem initiator_rejection_counts :
    ¬ ∀ (first : Observation) (rest : List Observation) (known : Option Direction)
        (protocol : Protocol),
      ((first :: rest).foldl MicroFlow.record (.new first known)).attemptOutcome protocol =
        outcomeOf protocol (initialDirection first known) (first :: rest) := by
  intro claimed
  have same := claimed (snmpPacket true false) [snmpPacket false false, snmpPacket true true] none
    .udp
  revert same
  decide

end PiAgents.Capture
