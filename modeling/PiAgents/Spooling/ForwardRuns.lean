import PiAgents.Lib.Runs
import PiAgents.Capture.WrittenFields
import PiAgents.Detection.AdmittedRecords
import PiAgents.Spooling.Forwarding

/-! Runs of the forwarder on a recovered spool, whatever the publisher answers and reports. -/

namespace PiAgents.Spooling

open Forwarder (queued)
open Capture (HealthEvent Writer encodeEnvelope encodeHealthEvent)
open Detection (repeated stringBytes_repeated)
open Protobuf (stringBytes encodeVarint)

namespace ForwardRun

section Runs

variable (gatewayId : String) (config : SpoolConfig) {disk : Disk} {files : List StoredFile}
  (recoverable : Recoverable disk files) {spool : Spool}
  (opened : (Spool.open config disk).2 = some spool) (steps : List ForwardStep)
  (records : Runs.Meets step Records (start gatewayId config disk) steps)

include recoverable opened records

theorem steady_run : (Runs.run step (start gatewayId config disk) steps).Steady := by
  have preserves : ∀ (h : ForwardRun) (event : ForwardStep), h.Steady → h.Records event →
      (h.step event).Steady := fun h event steady fits => steady.step event fits
  exact Runs.run_invariant preserves (steady_start recoverable opened) records

/-- In every run whose records fit nothing is stuck or skipped. -/
theorem nothing_stuck : (Runs.run step (start gatewayId config disk) steps).Unstuck :=
  (steady_run gatewayId config recoverable opened steps records).unstuck

/-- The numbers sent for the first time come in order. -/
theorem first_sends_in_order :
    FirstInOrder (Runs.run step (start gatewayId config disk) steps).sent := by
  cases steady_run gatewayId config recoverable opened steps records with
  | stopped closed recorded => exact recorded.first
  | running isOpen settled recorded => exact recorded.first

/-- What is sent is what was written under its number, also when it is sent again. -/
theorem sends_faithful : (Runs.run step (start gatewayId config disk) steps).Faithful := by
  cases steady_run gatewayId config recoverable opened steps records with
  | stopped closed recorded => exact recorded.faithful
  | running isOpen settled recorded => exact recorded.faithful

end Runs

/-- A forwarder for an empty directory. -/
def fresh : Forwarder :=
  ⟨"gw", ⟨[], some (numberLine 4096), none, none, none⟩, ⟨smallSegments, [], none, 0, 4096, 0⟩,
    ⟨0, 0⟩, ⟨0, 0, 0, 0⟩, none⟩

theorem opened_small : (Spool.open smallSegments .empty).2 =
    some ⟨smallSegments, [], none, 0, 4096, 0⟩ := by
  have opened := opened_empty
  simp only [Machine.step, Machine.perform, Machine.mk.injEq] at opened
  exact opened.2

theorem start_fresh :
    start "gw" smallSegments .empty = ⟨some fresh, [], [], [], [], [], [], []⟩ := by
  have opened := opened_empty
  simp only [Machine.step, Machine.perform, Machine.mk.injEq] at opened
  rw [start, opened.2, opened.1]
  rfl

def beat (time : Int64) : ForwardStep :=
  .submitHealth "sensor" .heartbeat 0 (0, 0) (0, time) "up" 7

/-- The client is full at the third record; the first one fails and is sent again. -/
def resent : List ForwardStep :=
  [beat 5, beat 6, beat 7, .pump 4 [] fun made => if made < 2 then .queued else .full,
    .pump 4 [(1, true), (0, false)] fun _ => .queued, beat 8, .sync,
    .pump 4 [(2, true)] fun _ => .queued]

theorem resent_fits : Runs.Meets step Records (start "gw" smallSegments .empty) resent := by
  rw [start_fresh]
  decide +kernel

theorem resent_sends : (Runs.run step (start "gw" smallSegments .empty) resent).sent =
      [0, 1, 0, 2, 3] ∧
    (Runs.run step (start "gw" smallSegments .empty) resent).outstanding = [0, 3] := by
  rw [start_fresh]
  decide +kernel

theorem unstuck_resent : (Runs.run step (start "gw" smallSegments .empty) resent).Unstuck ∧
    (Runs.run step (start "gw" smallSegments .empty) resent).outstanding = [0, 3] :=
  ⟨nothing_stuck "gw" smallSegments recoverable_empty opened_small resent resent_fits,
    resent_sends.2⟩

theorem first_sends_resent :
    FirstInOrder (Runs.run step (start "gw" smallSegments .empty) resent).sent ∧
      (Runs.run step (start "gw" smallSegments .empty) resent).sent = [0, 1, 0, 2, 3] :=
  ⟨first_sends_in_order "gw" smallSegments recoverable_empty opened_small resent resent_fits,
    resent_sends.1⟩

theorem sends_faithful_resent :
    (Runs.run step (start "gw" smallSegments .empty) resent).Faithful :=
  sends_faithful "gw" smallSegments recoverable_empty opened_small resent resent_fits

/-! A record of 2^32 bytes announces that it is empty. A read takes its header and the first eight
bytes of its body for records and stops in front of the next eight, its event time. -/

private theorem drop_header (bytes rest : List UInt8) (count : bytes.length = 8) :
    (bytes ++ rest).drop recordHeader = rest := List.drop_left' count

private theorem readRest_zeros (segment : Segment) (rounds limit : Nat) (crc rest : List UInt8)
    (width : crc.length = 4) (cursor : Cursor) :
    Spool.readRest segment (rounds + 1) (limit + 1) ([0, 0, 0, 0] ++ crc ++ rest) cursor =
      Spool.readRest segment rounds (limit + 1) rest
        { cursor with offset := cursor.offset + 8 } := by
  have header : ([0, 0, 0, 0] ++ crc : List UInt8).length = 8 := by
    rw [List.length_append, width]
    rfl
  have frame : readFrame ([0, 0, 0, 0] ++ crc ++ rest) = some
      (UInt32.ofNat (fromLeBytes ((([0, 0, 0, 0] ++ crc ++ rest).drop 4).take 4)), [], rest) := by
    have long : ¬ ([0, 0, 0, 0] ++ crc ++ rest : List UInt8).length < recordHeader := by
      rw [List.length_append, header, recordHeader]
      omega
    have none' : fromLeBytes (([0, 0, 0, 0] ++ crc ++ rest).take 4) = 0 := rfl
    simp only [readFrame, if_neg long, none', drop_header _ rest header, Nat.not_lt_zero, if_false,
      List.take_zero, List.drop_zero]
  rw [Spool.readRest, if_neg (Nat.succ_ne_zero limit), frame]
  rfl

private theorem readRest_ones (segment : Segment) (rounds limit : Nat) (rest : List UInt8)
    (short : rest.length < 4294967295) (cursor : Cursor) :
    Spool.readRest segment rounds limit (List.replicate 8 255 ++ rest) cursor = ([], cursor) := by
  cases rounds with
  | zero => rfl
  | succ rounds =>
      have stops : readFrame (List.replicate 8 255 ++ rest) = none := by
        have long : ¬ (List.replicate 8 255 ++ rest : List UInt8).length < recordHeader := by
          rw [List.length_append, List.length_replicate, recordHeader]
          omega
        have announced : fromLeBytes ((List.replicate 8 255 ++ rest).take 4) = 4294967295 :=
          show fromLeBytes [255, 255, 255, 255] = 4294967295 by decide
        simp only [readFrame, if_neg long, announced,
          drop_header _ rest List.length_replicate, if_pos short]
      rw [Spool.readRest, stops]
      split
      · rfl
      · rfl

variable {event : Spool.Event}

theorem encodeEntry_longest (time : event.eventTimeMs = -1)
    (body : (entryBody (event.entry 0)).length = 2 ^ 32) :
    ∃ crc rest : List UInt8, crc.length = 4 ∧ rest.length = 4294967280 ∧
      encodeEntry (event.entry 0) = [0, 0, 0, 0] ++ crc ++
        ([0, 0, 0, 0] ++ [0, 0, 0, 0] ++ (List.replicate 8 255 ++ rest)) := by
  let rest := [event.topic.toU8] ++ toLeBytes 2 event.key.length ++ event.key ++ event.payload 0
  have parts : entryBody (event.entry 0) =
      [0, 0, 0, 0] ++ [0, 0, 0, 0] ++ (List.replicate 8 255 ++ rest) := by
    change toLeBytes 8 0 ++ toLeBytes 8 event.eventTimeMs.toUInt64.toNat ++ [event.topic.toU8] ++
      toLeBytes 2 event.key.length ++ event.key ++ event.payload 0 = _
    rw [time]
    have ones : toLeBytes 8 (-1 : Int64).toUInt64.toNat = List.replicate 8 255 := by decide
    have zeros : toLeBytes 8 0 = [0, 0, 0, 0] ++ [0, 0, 0, 0] := by decide
    rw [ones, zeros]
    simp only [rest, List.append_assoc]
  refine ⟨toLeBytes 4 (crc32 (entryBody (event.entry 0))).toNat, rest, toLeBytes_length 4 _, ?_, ?_⟩
  · rw [parts] at body
    simp only [List.length_append, List.length_replicate, List.length_cons, List.length_nil] at body
    omega
  · have announced : toLeBytes 4 (2 ^ 32) = [0, 0, 0, 0] := by decide
    rw [encodeEntry, frame, body, announced, ← parts]

/-- The segment that holds nothing but the record of the event. -/
def only (event : Spool.Event) : Segment :=
  ⟨0, 0, 1, [false], 1, min Int64.maxValue event.eventTimeMs,
    max Int64.minValue event.eventTimeMs, 0 + (encodeEntry (event.entry 0)).length⟩

def holding (event : Spool.Event) (cursor : Cursor) : Forwarder :=
  ⟨"gw", ⟨[(0, encodeEntry (event.entry 0))], some (numberLine 4096), none, none, none⟩,
    ⟨smallSegments, [only event], some 0, 1, 4096, 0 + (encodeEntry (event.entry 0)).length⟩,
    cursor, ⟨0, 0, 0, 0⟩, none⟩

theorem submitted_fresh (event : Spool.Event) (nowMs : Int64) :
    submitted ⟨some fresh, [], [], [], [], [], [], []⟩ fresh (fresh.writes event nowMs)
        (fresh.submit event nowMs) =
      ⟨some (holding event ⟨0, 0⟩), [], [], [], [], [0], [event.entry 0], []⟩ := rfl

theorem read_holding (event : Spool.Event) (cursor : Cursor) (offset limit : Nat) :
    (holding event cursor).spool.read (holding event cursor).disk ⟨0, offset⟩ (limit + 1) =
      Spool.readRest (only event) (((encodeEntry (event.entry 0)).drop offset).length + 1)
        (limit + 1) ((encodeEntry (event.entry 0)).drop offset) ⟨0, offset⟩ := by
  have last := readSegments_last (holding event cursor).disk (only event)
    (Nat.succ_ne_zero limit) ⟨0, offset⟩
  have file : (holding event cursor).disk.file 0 = some (encodeEntry (event.entry 0)) := rfl
  have known : (holding event cursor).spool.segments.any
      (·.firstSeq == (⟨0, offset⟩ : Cursor).segment) = true := rfl
  rw [Spool.read, if_pos known]
  refine last.trans ?_
  rw [readHere, show (only event).path = 0 from rfl, file]
  rfl

section Longest

variable (time : event.eventTimeMs = -1) (body : (entryBody (event.entry 0)).length = 2 ^ 32)

include time body

theorem read_longest (limit : Nat) :
    (holding event ⟨0, 0⟩).spool.read (holding event ⟨0, 0⟩).disk ⟨0, 0⟩ (limit + 1) =
      ([], ⟨0, 16⟩) := by
  rcases encodeEntry_longest time body with ⟨crc, rest, width, length, record⟩
  have short : rest.length < 4294967295 := by omega
  have rounds : (encodeEntry (event.entry 0)).length + 1 =
      ((encodeEntry (event.entry 0)).length - 1) + 1 + 1 := by
    rw [encodeEntry_length, recordHeader]
    omega
  rw [read_holding, List.drop_zero, rounds]
  generalize (encodeEntry (event.entry 0)).length - 1 = left'
  rw [record, readRest_zeros _ _ _ _ _ width, readRest_zeros _ _ _ _ _ rfl,
    readRest_ones _ _ _ _ short]

theorem read_behind (limit : Nat) :
    (holding event ⟨0, 16⟩).spool.read (holding event ⟨0, 16⟩).disk ⟨0, 16⟩ limit =
      ([], ⟨0, 16⟩) := by
  rcases encodeEntry_longest time body with ⟨crc, rest, width, length, record⟩
  have short : rest.length < 4294967295 := by omega
  have behind : (encodeEntry (event.entry 0)).drop 16 = List.replicate 8 255 ++ rest := by
    have lead : ([0, 0, 0, 0] ++ crc ++ ([0, 0, 0, 0] ++ [0, 0, 0, 0]) : List UInt8).length =
        16 := by
      rw [List.length_append, List.length_append, width]
      rfl
    rw [record, ← List.append_assoc]
    exact List.drop_left' lead
  cases limit with
  | zero => rfl
  | succ limit =>
      rw [read_holding, behind, readRest_ones _ _ _ _ short]

end Longest

def detailed (detail : String) : Spool.Event :=
  healthEvent "gw" "sensor" .heartbeat 0 (0, 0) (0, -1) detail 0

/-- The fields in front of the detail. -/
def front (h : HealthEvent) : Writer :=
  (((((((Writer.empty.message 1 (encodeEnvelope h.envelope)).string 2 h.component).uint 3
    h.kind.number).uint 4 h.count).uint 5 h.firstSequence).uint 6 h.lastSequence).int 7
    h.firstEventTimeUnixMillis).int 8 h.lastEventTimeUnixMillis

theorem encodeHealthEvent_front (h : HealthEvent) :
    encodeHealthEvent h = ((front h).string 9 h.detail).buf := rfl

private theorem detailed_length {detail : String} (nonempty : stringBytes detail ≠ []) :
    (entryBody ((detailed detail).entry 0)).length =
      70 + (encodeVarint (UInt64.ofNat (stringBytes detail).length).toNat).length +
        (stringBytes detail).length := by
  let event : HealthEvent :=
    ⟨⟨"gw" ++ "/" ++ toString 0, "gw", "", -1, 0⟩, "sensor", .heartbeat, 0, 0, 0, 0, -1, detail⟩
  have frontLength : (front event).buf.length = 48 :=
    show (front ⟨⟨"gw" ++ "/" ++ toString 0, "gw", "", -1, 0⟩, "sensor", .heartbeat, 0, 0, 0, 0, -1,
      ""⟩).buf.length = 48 by decide
  have tag : (encodeVarint ((9 : UInt32).toUInt64 <<< 3 ||| (2 : UInt8).toUInt64).toNat).length =
      1 := by decide
  have payload : ((detailed detail).entry 0).payload = encodeHealthEvent event := rfl
  have key : ((detailed detail).entry 0).key.length = 2 :=
    show (stringBytes "gw").length = 2 by decide
  rw [entryBody_length, key, payload, encodeHealthEvent_front, Writer.string,
    Writer.bytes_eq_message _ _ nonempty, Writer.message, Writer.buf_extend, Writer.buf_varint,
    Writer.tag, Writer.buf_varint, List.length_append, List.length_append, List.length_append,
    frontLength, tag, entryFixed]
  omega

def detailedSteps (detail : String) : List ForwardStep :=
  [.submitHealth "sensor" .heartbeat 0 (0, 0) (0, -1) detail 0, .pump 1 [] fun _ => .queued]

section Stuck

variable {detail : String} (body : (entryBody ((detailed detail).entry 0)).length = 2 ^ 32)

include body

theorem pump_longest : (holding (detailed detail) ⟨0, 0⟩).pump 1 [] (fun _ => .queued) =
    (holding (detailed detail) ⟨0, 16⟩, []) := by
  have read : (holding (detailed detail) ⟨0, 0⟩).spool.read (holding (detailed detail) ⟨0, 0⟩).disk
      (holding (detailed detail) ⟨0, 0⟩).cursor (min 1 256) = ([], ⟨0, 16⟩) :=
    read_longest rfl body 0
  change Forwarder.sendLoop _ 1 0 1 (holding (detailed detail) ⟨0, 0⟩) = _
  rw [Forwarder.sendLoop, if_neg Nat.one_ne_zero]
  change (if _ then _ else _) = _
  rw [read]
  rfl

theorem longest_run : Runs.run step (start "gw" smallSegments .empty) (detailedSteps detail) =
    ⟨some (holding (detailed detail) ⟨0, 16⟩), [], [], [], [], [0],
      [(detailed detail).entry 0], []⟩ := by
  have pumped := pump_longest body
  rw [start_fresh, detailedSteps, Runs.run_cons, Runs.run_cons, Runs.run_nil]
  have first : step ⟨some fresh, [], [], [], [], [], [], []⟩
      (.submitHealth "sensor" .heartbeat 0 (0, 0) (0, -1) detail 0) =
      ⟨some (holding (detailed detail) ⟨0, 0⟩), [], [], [], [], [0],
        [(detailed detail).entry 0], []⟩ := submitted_fresh (detailed detail) 0
  rw [first]
  simp only [step, pumped]
  rfl

theorem stuck_longest :
    ¬ (Runs.run step (start "gw" smallSegments .empty) (detailedSteps detail)).Unstuck := by
  intro unstuck
  rw [longest_run body] at unstuck
  rcases unstuck.ahead _ rfl 0 (List.mem_singleton_self 0) with atCursor | outstanding
  · have nothing := read_behind rfl body (holding (detailed detail) ⟨0, 16⟩).spool.unacked
    change 0 ∈ ((holding (detailed detail) ⟨0, 16⟩).spool.read _ ⟨0, 16⟩ _).1.map _ at atCursor
    rw [nothing] at atCursor
    cases atCursor
  · cases outstanding

end Stuck

/-- Together with its header the record of this detail takes 4294967304 bytes. -/
@[irreducible] def longest : String := repeated 4294967221

private theorem longest_length : (stringBytes longest).length = 4294967221 := by
  unfold longest
  exact stringBytes_repeated 4294967221

private theorem longest_ne : stringBytes longest ≠ [] := by
  intro none'
  have length := longest_length
  rw [none', List.length_nil] at length
  omega

private theorem longest_body : (entryBody ((detailed longest).entry 0)).length = 2 ^ 32 := by
  have whole : (UInt64.ofNat 4294967221).toNat = 4294967221 := by rw [UInt64.toNat_ofNat']
  have varint : (encodeVarint 4294967221).length = 5 := by decide +kernel
  rw [detailed_length longest_ne, longest_length, whole, varint]
  norm_num

theorem unstuck_of_long_detail :
    ¬ (Runs.run step (start "gw" smallSegments .empty) (detailedSteps longest)).Unstuck :=
  stuck_longest longest_body

/-! After an outage. -/

/-- The publisher takes what it is offered, at least so many, and reports all it has as
delivered. -/
def Healthy (least : Nat) (h : ForwardRun) (event : ForwardStep) : Prop :=
  ∃ budget reports answers, event = .pump budget reports answers ∧ least ≤ budget ∧
    reports.Perm (h.outstanding.map fun seq => (seq, true)) ∧ ∀ made, answers made = .queued

/-- Nothing waits or is with the publisher, and all that entered was delivered or was lost. -/
structure Drained (h : ForwardRun) : Prop where
  unacked : ∃ f, h.forwarder = some f ∧ f.spool.unacked = 0
  outstanding : h.outstanding = []
  accounted : ∀ seq ∈ h.entered, seq ∈ h.delivered ∨ seq ∈ h.lost

/-- The publisher has the front of what waits. -/
def Caught (least : Nat) (h : ForwardRun) (f : Forwarder) : Prop :=
  ∃ rest, f.spool.waiting = h.outstanding ++ rest ∧
    min least f.spool.waiting.length ≤ h.outstanding.length

private theorem diff_self (numbers : List Nat) : numbers.diff numbers = [] := by
  induction numbers with
  | nil => rfl
  | cons first rest ih => rw [List.diff_cons, List.erase_cons_head, ih]

theorem acknowledged_all {reports : List (Nat × Bool)} {outstanding : List Nat}
    (all : reports.Perm (outstanding.map fun seq => (seq, true))) :
    (reports.any fun r => !r.2) = false ∧ (acknowledged reports).Perm outstanding := by
  have delivered : (reports.any fun r => !r.2) = false := by
    apply List.any_eq_false.mpr
    intro report member
    rcases List.mem_map.mp (all.mem_iff.mp member) with ⟨seq, _, rfl⟩
    exact Bool.false_ne_true
  refine ⟨delivered, ?_⟩
  rw [acknowledged_of_none_failed delivered]
  have numbers := all.map (·.1)
  rwa [List.map_map, show outstanding.map ((·.1) ∘ fun seq => (seq, true)) = outstanding from
    List.map_id _] at numbers

section Healthy

variable {h : ForwardRun} {f : Forwarder} {seq least budget : Nat} {reports : List (Nat × Bool)}
  {answers : Nat → SendOutcome}

theorem Settled.healthy (settled : h.Settled f seq) (enough : least ≤ budget)
    (all : reports.Perm (h.outstanding.map fun seq => (seq, true)))
    (takes : ∀ made, answers made = .queued) :
    (f.pump budget reports answers).1.spool.waiting =
        f.spool.waiting.filter (· ∉ h.outstanding) ∧
      Caught least (h.pumped reports (f.pump budget reports answers))
        (f.pump budget reports answers).1 := by
  have pumps := pump_pumps settled.aligned budget reports answers
  generalize f.pump budget reports answers = result at *
  rcases pumps.sends with ⟨first, last, stands, position, sends⟩
  rcases acknowledged_all all with ⟨delivered, same⟩
  have waiting : result.1.spool.waiting = f.spool.waiting.filter (· ∉ h.outstanding) := by
    rw [pumps.processed.waiting]
    apply List.filter_congr
    intro p _
    exact decide_eq_decide.mpr (not_congr same.mem_iff)
  -- What waits now was not with the publisher, so it is ahead of the position.
  have whole : result.1.spool.waitingFrom first = result.1.spool.waiting := by
    rcases position with ⟨rfl, _⟩ | all
    · apply List.filter_eq_self.mpr
      intro p waits
      rw [waiting] at waits
      rcases List.mem_filter.mp waits with ⟨waited, absent⟩
      have notThere : p ∉ h.outstanding := of_decide_eq_true absent
      apply decide_eq_true
      by_contra below
      exact notThere (settled.behind p waited (Nat.lt_of_not_le below))
    · exact all
  have taken : ∀ send ∈ result.2, send.outcome = .queued := by
    intro send member
    rcases (pumps.offered send member).answered with ⟨made, answer⟩
    rw [← answer, takes]
  have none' : h.outstanding.diff (reports.map (·.1)) = [] := by
    rw [← acknowledged_of_none_failed delivered, same.diff_left]
    exact diff_self h.outstanding
  have now : (h.pumped reports result).outstanding = queued result.2 := by
    change h.outstanding.diff (reports.map (·.1)) ++ queued result.2 = _
    rw [none', List.nil_append]
  refine ⟨waiting, result.1.spool.waitingFrom last, ?_, ?_⟩
  · rw [now, sends.front, whole]
  · have many := sends.all taken
    rw [whole] at many
    rw [now]
    omega

theorem Caught.shorter (caught : Caught least h f) :
    (f.spool.waiting.filter (· ∉ h.outstanding)).length ≤ f.spool.waiting.length - least := by
  rcases caught with ⟨rest, split, many⟩
  have gone : h.outstanding.filter (· ∉ h.outstanding) = [] := by
    apply List.filter_eq_nil_iff.mpr
    intro seq member
    simpa using member
  have total := congrArg List.length split
  rw [List.length_append] at total
  have filtered : (f.spool.waiting.filter (· ∉ h.outstanding)).length ≤ rest.length := by
    rw [split, List.filter_append, gone, List.nil_append]
    exact List.length_filter_le _ _
  omega

theorem Settled.drained (settled : h.Settled f seq) (isOpen : h.forwarder = some f)
    (caught : Caught least h f) (nothing : f.spool.waiting.length = 0) : h.Drained := by
  have empty : f.spool.waiting = [] := List.length_eq_zero_iff.mp nothing
  rcases caught with ⟨rest, split, _⟩
  rw [empty] at split
  have none' : h.outstanding = [] := (List.append_eq_nil_iff.mp split.symm).1
  refine ⟨⟨f, isOpen, ?_⟩, none', ?_⟩
  · rw [settled.aligned.unacked, empty]
    rfl
  · intro p member
    rcases settled.kept p member with waits | delivered | gone
    · rw [empty] at waits
      cases waits
    · exact Or.inl delivered
    · exact Or.inr gone.1

/-- A pump with a healthy publisher. -/
theorem Settled.heals (settled : h.Settled f seq) (recorded : h.Recorded)
    (isOpen : h.forwarder = some f) {event : ForwardStep} (healthy : Healthy least h event) :
    ∃ g last, (h.step event).forwarder = some g ∧ (h.step event).Settled g last ∧
      (h.step event).Recorded ∧ Caught least (h.step event) g ∧
      g.spool.waiting = f.spool.waiting.filter (· ∉ h.outstanding) := by
  rcases healthy with ⟨budget, reports, answers, rfl, enough, all, takes⟩
  have same : h.step (.pump budget reports answers) =
      h.pumped reports (f.pump budget reports answers) := by
    rw [ForwardRun.step, isOpen]
  rw [same]
  rcases settled.healthy enough all takes with ⟨waiting, caught⟩
  have steady := settled.pumps recorded (pump_pumps settled.aligned budget reports answers)
  cases steady with
  | stopped closed _ => cases closed
  | @running g last running settled' recorded' =>
      cases running
      exact ⟨_, last, rfl, settled', recorded', caught, waiting⟩

theorem Settled.run_heals {pumps : List ForwardStep} (settled : h.Settled f seq)
    (recorded : h.Recorded) (isOpen : h.forwarder = some f) (caught : Caught least h f)
    (few : f.spool.waiting.length ≤ least * pumps.length)
    (healthy : Runs.Meets step (Healthy least) h pumps) : (Runs.run step h pumps).Drained := by
  induction pumps generalizing h f seq with
  | nil => exact settled.drained isOpen caught (Nat.le_zero.mp few)
  | cons event rest ih =>
      rcases settled.heals recorded isOpen healthy.1 with
        ⟨g, last, running, after, history, front, waiting⟩
      refine ih after history running front ?_ healthy.2
      have shorter := caught.shorter
      rw [← waiting] at shorter
      rw [List.length_cons, Nat.mul_succ] at few
      omega

end Healthy

/-- Once the publisher works again, everything is delivered: after one pump for what it had and
enough of them for what waits, nothing is left. -/
theorem recovers_after_outage (gatewayId : String) (config : SpoolConfig) {disk : Disk}
    {files : List StoredFile} (recoverable : Recoverable disk files) {spool : Spool}
    (opened : (Spool.open config disk).2 = some spool) (steps : List ForwardStep)
    (records : Runs.Meets step Records (start gatewayId config disk) steps) {f : Forwarder}
    (isOpen : (Runs.run step (start gatewayId config disk) steps).forwarder = some f)
    (least : Nat) (first : ForwardStep) (pumps : List ForwardStep)
    (few : f.spool.unacked ≤ least * pumps.length)
    (healthy : Runs.Meets step (Healthy least) (Runs.run step (start gatewayId config disk) steps)
      (first :: pumps)) :
    (Runs.run step (start gatewayId config disk) (steps ++ first :: pumps)).Drained := by
  rw [Runs.run_append, Runs.run_cons]
  cases steady_run gatewayId config recoverable opened steps records with
  | stopped closed recorded =>
      rw [closed] at isOpen
      cases isOpen
  | @running g seq running settled recorded =>
      rw [running] at isOpen
      cases isOpen
      rcases settled.heals recorded running healthy.1 with
        ⟨after, last, still, settled', recorded', caught, waiting⟩
      refine settled'.run_heals recorded' still caught ?_ healthy.2
      rw [waiting]
      rw [settled.aligned.unacked] at few
      exact (List.length_filter_le _ _).trans few

/-- The first of two deliveries fails, and then the client is full. -/
def outage : List ForwardStep :=
  [beat 5, beat 6, .pump 4 [] fun _ => .queued, .pump 4 [(0, false)] fun _ => .full]

theorem outage_state :
    ((Runs.run step (start "gw" smallSegments .empty) outage).forwarder.map fun f =>
        f.spool.unacked) = some 2 ∧
      (Runs.run step (start "gw" smallSegments .empty) outage).outstanding = [1] ∧
      ((Runs.run step (start "gw" smallSegments .empty) outage).step
        (.pump 2 [(1, true)] fun _ => .queued)).outstanding = [0] := by
  rw [start_fresh]
  decide +kernel

theorem recovers_plain : (Runs.run step (start "gw" smallSegments .empty) (outage ++
    .pump 2 [(1, true)] (fun _ => .queued) :: [.pump 2 [(0, true)] fun _ => .queued])).Drained := by
  rcases outage_state with ⟨waits, outstanding, again⟩
  rcases Option.map_eq_some_iff.mp waits with ⟨f, isOpen, two⟩
  apply recovers_after_outage "gw" smallSegments recoverable_empty opened_small outage _ isOpen 2
  · rw [two]
    rfl
  · refine ⟨⟨2, [(1, true)], fun _ => .queued, rfl, Nat.le_refl 2, ?_, fun _ => rfl⟩,
      ⟨2, [(0, true)], fun _ => .queued, rfl, Nat.le_refl 2, ?_, fun _ => rfl⟩, trivial⟩
    · rw [outstanding]
      exact .refl _
    · rw [again]
      exact .refl _
  · rw [start_fresh]
    decide +kernel

end ForwardRun

end PiAgents.Spooling
