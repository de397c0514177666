import PiAgents.Capture.Eviction
import PiAgents.Lib.Batches

/-! Aggregation loses nothing: every record stands for a contiguous batch of its key's packets, and
its counters are theirs. -/

namespace PiAgents.Capture

/-- The flow is what `record` makes of these packets, the first of which opened it. -/
def MicroFlow.BuiltFrom (flow : MicroFlow) (packets : List Observation) : Prop :=
  ∃ first rest known, packets = first :: rest ∧
    flow = packets.foldl MicroFlow.record (.new first known)

theorem MicroFlow.built_new (obs : Observation) (known : Option Direction) :
    ((MicroFlow.new obs known).record obs).BuiltFrom [obs] :=
  ⟨obs, [], known, rfl, rfl⟩

theorem MicroFlow.BuiltFrom.record {flow : MicroFlow} {packets : List Observation}
    (built : flow.BuiltFrom packets) (obs : Observation) :
    (flow.record obs).BuiltFrom (packets ++ [obs]) := by
  rcases built with ⟨first, rest, known, rfl, rfl⟩
  refine ⟨first, rest ++ [obs], known, List.cons_append, ?_⟩
  rw [List.foldl_append]
  rfl

/-- What a micro-flow adds up. -/
inductive Counter where
  | packetsFromDevice
  | packetsToDevice
  | bytesFromDevice
  | bytesToDevice
  | tcpSyn
  | tcpSynAck
  | tcpRst
  | tcpFin

def MicroFlow.total (flow : MicroFlow) : Counter → Nat
  | .packetsFromDevice => flow.packetsFromDevice.toNat
  | .packetsToDevice => flow.packetsToDevice.toNat
  | .bytesFromDevice => flow.bytesFromDevice.toNat
  | .bytesToDevice => flow.bytesToDevice.toNat
  | .tcpSyn => flow.tcpSyn.toNat
  | .tcpSynAck => flow.tcpSynAck.toNat
  | .tcpRst => flow.tcpRst.toNat
  | .tcpFin => flow.tcpFin.toNat

def Observation.adds (obs : Observation) : Counter → Nat
  | .packetsFromDevice => if obs.fromDevice then 1 else 0
  | .packetsToDevice => if obs.fromDevice then 0 else 1
  | .bytesFromDevice => if obs.fromDevice then obs.bytes.toNat else 0
  | .bytesToDevice => if obs.fromDevice then 0 else obs.bytes.toNat
  | .tcpSyn => if obs.syn && !obs.ack then 1 else 0
  | .tcpSynAck => if obs.syn && obs.ack then 1 else 0
  | .tcpRst => if obs.rst then 1 else 0
  | .tcpFin => if obs.fin then 1 else 0

def sumOf (counter : Counter) (packets : List Observation) : Nat :=
  (packets.map fun obs => obs.adds counter).sum

/-- The number that the counter's type cannot hold. -/
def Counter.limit : Counter → Nat
  | .bytesFromDevice | .bytesToDevice => 2 ^ 64
  | _ => 2 ^ 32

/-- Fewer than 2^32 packets, and fewer than 2^64 bytes in each direction. -/
structure Countable (packets : List Observation) : Prop where
  length : packets.length < 2 ^ 32
  bytesFromDevice : sumOf .bytesFromDevice packets < 2 ^ 64
  bytesToDevice : sumOf .bytesToDevice packets < 2 ^ 64

private theorem add32_toNat {a b : UInt32} (room : a.toNat + b.toNat < 2 ^ 32) :
    (a + b).toNat = a.toNat + b.toNat := by
  rw [UInt32.toNat_add, Nat.mod_eq_of_lt room]

private theorem saturatingAdd32_toNat {a b : UInt32} (room : a.toNat + b.toNat < 2 ^ 32) :
    (saturatingAdd32 a b).toNat = a.toNat + b.toNat := by
  have sum := add32_toNat room
  have fits : ¬ a + b < a := by
    rw [UInt32.lt_iff_toNat_lt, sum]
    omega
  rw [saturatingAdd32, if_neg fits, sum]

private theorem saturatingAdd64_toNat {a b : UInt64} (room : a.toNat + b.toNat < 2 ^ 64) :
    (saturatingAdd64 a b).toNat = a.toNat + b.toNat := by
  have sum : (a + b).toNat = a.toNat + b.toNat := by rw [UInt64.toNat_add, Nat.mod_eq_of_lt room]
  have fits : ¬ a + b < a := by
    rw [UInt64.lt_iff_toNat_lt, sum]
    omega
  rw [saturatingAdd64, if_neg fits, sum]

private theorem increment_toNat {n : UInt32} {counted : Bool}
    (room : n.toNat + (if counted then 1 else 0) < 2 ^ 32) :
    (if counted then n + 1 else n).toNat = n.toNat + if counted then 1 else 0 := by
  cases counted with
  | false => rfl
  | true => exact add32_toNat room

theorem record_total (flow : MicroFlow) (obs : Observation) (counter : Counter)
    (room : flow.total counter + obs.adds counter < counter.limit) :
    (flow.record obs).total counter = flow.total counter + obs.adds counter := by
  cases counter with
  | packetsFromDevice =>
      simp only [MicroFlow.total, Observation.adds, MicroFlow.record] at room ⊢
      cases side : obs.fromDevice with
      | true =>
          rw [side] at room
          exact saturatingAdd32_toNat room
      | false => rfl
  | packetsToDevice =>
      simp only [MicroFlow.total, Observation.adds, MicroFlow.record] at room ⊢
      cases side : obs.fromDevice with
      | true => rfl
      | false =>
          rw [side] at room
          exact saturatingAdd32_toNat room
  | bytesFromDevice =>
      simp only [MicroFlow.total, Observation.adds, MicroFlow.record] at room ⊢
      cases side : obs.fromDevice with
      | true =>
          rw [side] at room
          exact saturatingAdd64_toNat room
      | false => rfl
  | bytesToDevice =>
      simp only [MicroFlow.total, Observation.adds, MicroFlow.record] at room ⊢
      cases side : obs.fromDevice with
      | true => rfl
      | false =>
          rw [side] at room
          exact saturatingAdd64_toNat room
  | tcpSyn => exact increment_toNat room
  | tcpSynAck => exact increment_toNat room
  | tcpRst => exact increment_toNat room
  | tcpFin => exact increment_toNat room

theorem foldl_total (counter : Counter) (packets : List Observation) (flow : MicroFlow)
    (room : flow.total counter + sumOf counter packets < counter.limit) :
    (packets.foldl MicroFlow.record flow).total counter =
      flow.total counter + sumOf counter packets := by
  induction packets generalizing flow with
  | nil => rfl
  | cons obs rest ih =>
      have split : sumOf counter (obs :: rest) = obs.adds counter + sumOf counter rest := rfl
      rw [split] at room ⊢
      have one := record_total flow obs counter (by omega)
      rw [List.foldl_cons, ih (flow.record obs) (by omega), one, Nat.add_assoc]

theorem sumOf_le_length {counter : Counter} (one : ∀ obs : Observation, obs.adds counter ≤ 1)
    (packets : List Observation) : sumOf counter packets ≤ packets.length := by
  induction packets with
  | nil => exact Nat.le_refl 0
  | cons obs rest ih =>
      have first := one obs
      have split : sumOf counter (obs :: rest) = obs.adds counter + sumOf counter rest := rfl
      rw [split, List.length_cons]
      omega

private theorem if_one_le (condition : Bool) : (if condition = true then 1 else 0) ≤ 1 := by
  cases condition with
  | false => exact Nat.zero_le 1
  | true => exact Nat.le_refl 1

theorem Countable.sumOf_lt {packets : List Observation} (countable : Countable packets)
    (counter : Counter) : sumOf counter packets < counter.limit := by
  have flags {counter : Counter} (one : ∀ obs : Observation, obs.adds counter ≤ 1) :
      sumOf counter packets < 2 ^ 32 :=
    (sumOf_le_length one packets).trans_lt countable.length
  cases counter with
  | packetsFromDevice => exact flags fun obs => if_one_le obs.fromDevice
  | packetsToDevice =>
      apply flags
      intro obs
      rw [Observation.adds]
      cases obs.fromDevice with
      | false => exact Nat.le_refl 1
      | true => exact Nat.zero_le 1
  | bytesFromDevice => exact countable.bytesFromDevice
  | bytesToDevice => exact countable.bytesToDevice
  | tcpSyn => exact flags fun obs => if_one_le _
  | tcpSynAck => exact flags fun obs => if_one_le _
  | tcpRst => exact flags fun obs => if_one_le _
  | tcpFin => exact flags fun obs => if_one_le _

theorem MicroFlow.BuiltFrom.total {flow : MicroFlow} {packets : List Observation}
    (built : flow.BuiltFrom packets) (countable : Countable packets) (counter : Counter) :
    flow.total counter = sumOf counter packets := by
  rcases built with ⟨first, rest, known, -, rfl⟩
  have zero : (MicroFlow.new first known).total counter = 0 := by cases counter <;> rfl
  have bound := countable.sumOf_lt counter
  rw [foldl_total counter packets _ (by omega), zero, Nat.zero_add]

def CaptureEvent.observation : CaptureEvent → List Observation
  | .observe obs => [obs]
  | .flushDue _ => []
  | .flushAll => []

/-- What a call does after it has closed the flows that it reports. -/
def CaptureEvent.rest : CaptureEvent → List Move
  | .observe obs => [.observe obs]
  | .flushDue _ => [.forget]
  | .flushAll => []

def FlowTable.perform (table : FlowTable) : CaptureEvent → FlowTable × List FlowRecord
  | .observe obs => ((table.upsert obs).1, (table.upsert obs).2.1)
  | .flushDue nowUs => table.flushDue nowUs
  | .flushAll => table.flushAll

theorem FlowTable.perform_moves {table : FlowTable} (bounded : table.Bounded)
    (event : CaptureEvent) :
    Moves table ((table.perform event).2.map .close ++ event.rest) (table.perform event).1 := by
  cases event with
  | observe obs => exact upsert_moves table bounded obs
  | flushDue nowUs => exact flushDue_moves table nowUs
  | flushAll =>
      have moves := flushAll_moves table
      rw [← List.append_nil (List.map _ _)] at moves
      exact moves

/-- The packets of each key, cut where its flow is closed. -/
def Move.cut (batches : Batches FlowKey Observation) : Move → Batches FlowKey Observation
  | .close record => batches.close record.key
  | .observe obs => batches.add obs.key obs
  | .forget => batches

/-- A table, the records that its calls have emitted, and the packets that they stand for. -/
structure Session where
  table : FlowTable
  emitted : List FlowRecord
  batches : Batches FlowKey Observation

namespace Session

def start (table : FlowTable) : Session := ⟨table, [], .empty⟩

def step (session : Session) (event : CaptureEvent) : Session :=
  let (table, out) := session.table.perform event
  { table, emitted := session.emitted ++ out
    batches := (out.map Move.close ++ event.rest).foldl Move.cut session.batches }

end Session

/-- The open flow of a key and the packets of its open batch. -/
inductive OpenFrom : Option MicroFlow → List Observation → Prop
  | absent : OpenFrom none []
  | present {flow : MicroFlow} {packets : List Observation} (built : flow.BuiltFrom packets) :
      OpenFrom (some flow) packets

/-- Every record and every open flow is built from its batch. -/
structure Tracks (table : FlowTable) (emitted : List FlowRecord)
    (batches : Batches FlowKey Observation) : Prop where
  built : List.Forall₂ (fun record batch => record.key = batch.1 ∧ record.flow.BuiltFrom batch.2)
    emitted batches.closed
  opened : ∀ key, OpenFrom (table.get key) (batches.opened key)

theorem Tracks.move {before after : FlowTable} {move : Move} {emitted : List FlowRecord}
    {batches : Batches FlowKey Observation} (tracks : Tracks before emitted batches)
    (step : before.Step move after) :
    Tracks after (emitted ++ move.emits) (move.cut batches) := by
  have opened := tracks.opened
  cases step with
  | @close key flow present =>
      constructor
      · have own := opened key
        rw [present] at own
        cases own with
        | present built => exact List.rel_append tracks.built (.cons ⟨rfl, built⟩ .nil)
      · intro other
        change OpenFrom ((before.entries.erase key).lookup other)
          (Function.update batches.opened key [] other)
        by_cases same : other = key
        · rw [same, AList.lookup_erase, Function.update_self]
          exact .absent
        · rw [AList.lookup_erase_ne same, Function.update_of_ne same]
          exact opened other
  | @insert obs absent room =>
      refine ⟨(List.append_nil emitted).symm ▸ tracks.built, ?_⟩
      intro other
      change OpenFrom ((before.entries.insert obs.key _).lookup other)
        (Function.update batches.opened obs.key (batches.opened obs.key ++ [obs]) other)
      by_cases same : other = obs.key
      · have own := opened obs.key
        rw [absent] at own
        rw [same, AList.lookup_insert, Function.update_self]
        cases none : batches.opened obs.key with
        | nil => exact .present (MicroFlow.built_new obs _)
        | cons packet rest =>
            rw [none] at own
            cases own
      · rw [AList.lookup_insert_ne same, Function.update_of_ne same]
        exact opened other
  | @update obs flow present current =>
      refine ⟨(List.append_nil emitted).symm ▸ tracks.built, ?_⟩
      intro other
      change OpenFrom ((before.entries.insert obs.key _).lookup other)
        (Function.update batches.opened obs.key (batches.opened obs.key ++ [obs]) other)
      by_cases same : other = obs.key
      · have own := opened obs.key
        rw [present] at own
        rw [same, AList.lookup_insert, Function.update_self]
        cases own with
        | present built => exact .present (built.record obs)
      · rw [AList.lookup_insert_ne same, Function.update_of_ne same]
        exact opened other
  | forget keep => exact ⟨(List.append_nil emitted).symm ▸ tracks.built, opened⟩

theorem Tracks.moves {before after : FlowTable} {moves : List Move} {emitted : List FlowRecord}
    {batches : Batches FlowKey Observation} (tracks : Tracks before emitted batches)
    (all : before.Moves moves after) :
    Tracks after (emitted ++ moves.flatMap Move.emits) (moves.foldl Move.cut batches) := by
  induction all generalizing emitted batches with
  | nil table =>
      rw [List.flatMap_nil, List.append_nil]
      exact tracks
  | cons step rest ih =>
      rw [List.flatMap_cons, ← List.append_assoc]
      exact ih (tracks.move step)

theorem contents_cut (batches : Batches FlowKey Observation) (move : Move) (key : FlowKey) :
    (move.cut batches).contents key =
      batches.contents key ++ move.observation.filter fun obs => obs.key = key := by
  cases move with
  | close record => exact (batches.contents_close record.key key).trans (List.append_nil _).symm
  | observe obs =>
      have added := batches.contents_add obs.key key obs
      by_cases same : obs.key = key
      · rw [if_pos same] at added
        simp only [Move.cut, Move.observation, List.filter_singleton, same, decide_true, cond_true]
        exact same ▸ added
      · rw [if_neg same] at added
        simp only [Move.cut, Move.observation, List.filter_singleton, same, decide_false, cond_false]
        exact added
  | forget => exact (List.append_nil _).symm

theorem contents_cuts (moves : List Move) (batches : Batches FlowKey Observation) (key : FlowKey) :
    (moves.foldl Move.cut batches).contents key =
      batches.contents key ++ (moves.flatMap Move.observation).filter fun obs => obs.key = key := by
  induction moves generalizing batches with
  | nil => exact (List.append_nil _).symm
  | cons move rest ih =>
      rw [List.foldl_cons, ih, contents_cut, List.flatMap_cons, List.filter_append,
        List.append_assoc]

theorem emits_of_call (out : List FlowRecord) (event : CaptureEvent) :
    (out.map Move.close ++ event.rest).flatMap Move.emits = out := by
  have silent : event.rest.flatMap Move.emits = [] := by cases event <;> rfl
  rw [List.flatMap_append, FlowTable.emits_of_closes, silent, List.append_nil]

theorem observation_of_call (out : List FlowRecord) (event : CaptureEvent) :
    (out.map Move.close ++ event.rest).flatMap Move.observation = event.observation := by
  have closes : (out.map Move.close).flatMap Move.observation = [] := by
    rw [List.flatMap_map]
    exact List.flatMap_eq_nil_iff.mpr fun record _ => rfl
  rw [List.flatMap_append, closes, List.nil_append]
  cases event <;> rfl

/-- The packets of a key that were fed. -/
def packetsOf (key : FlowKey) (events : List CaptureEvent) : List Observation :=
  (events.flatMap CaptureEvent.observation).filter fun obs => obs.key = key

namespace Session

/-- The records of a key that were emitted, added up. -/
def reportedTotal (session : Session) (key : FlowKey) (counter : Counter) : Nat :=
  ((session.emitted.filter fun record => record.key = key).map
    fun record => record.flow.total counter).sum

def openTotal (session : Session) (key : FlowKey) (counter : Counter) : Nat :=
  ((session.table.get key).map fun flow => flow.total counter).getD 0

/-- No micro-flow has counted out its counters. -/
structure Countable (session : Session) : Prop where
  closed : ∀ batch ∈ session.batches.closed, Capture.Countable batch.2
  opened : ∀ key, Capture.Countable (session.batches.opened key)

structure Kept (session : Session) : Prop where
  bounded : session.table.Bounded
  tracks : Tracks session.table session.emitted session.batches

theorem Kept.step {session : Session} (kept : session.Kept) (event : CaptureEvent) :
    (session.step event).Kept := by
  have moves := FlowTable.perform_moves kept.bounded event
  have tracks := kept.tracks.moves moves
  rw [emits_of_call] at tracks
  exact ⟨moves.bounded kept.bounded, tracks⟩

theorem Kept.run {session : Session} (kept : session.Kept) (events : List CaptureEvent) :
    (Runs.run Session.step session events).Kept := by
  induction events generalizing session with
  | nil => exact kept
  | cons event rest ih => exact ih (kept.step event)

theorem start_kept (capacity : Nat) (capacity_pos : 0 < capacity) (idleUs activeUs : Int) :
    (start (.withTimeouts capacity capacity_pos idleUs activeUs)).Kept where
  bounded := Nat.zero_le capacity
  tracks := by
    refine ⟨.nil, ?_⟩
    intro key
    rw [start, FlowTable.get_withTimeouts]
    exact .absent

theorem run_contents (session : Session) (events : List CaptureEvent) (key : FlowKey) :
    (Runs.run step session events).batches.contents key =
      session.batches.contents key ++ packetsOf key events := by
  induction events generalizing session with
  | nil => exact (List.append_nil _).symm
  | cons event rest ih =>
      have one : (session.step event).batches.contents key =
          session.batches.contents key ++ event.observation.filter fun obs => obs.key = key := by
        have cuts := contents_cuts
          ((session.table.perform event).2.map Move.close ++ event.rest) session.batches key
        rw [observation_of_call] at cuts
        exact cuts
      rw [Runs.run_cons, ih, one, List.append_assoc, packetsOf, packetsOf, List.flatMap_cons,
        List.filter_append]

theorem reported_sum {emitted : List FlowRecord} {closed : List (FlowKey × List Observation)}
    (built : List.Forall₂
      (fun record batch => record.key = batch.1 ∧ record.flow.BuiltFrom batch.2) emitted closed)
    (countable : ∀ batch ∈ closed, Capture.Countable batch.2) (key : FlowKey) (counter : Counter) :
    ((emitted.filter fun record => record.key = key).map
        fun record => record.flow.total counter).sum =
      ((closed.filter fun batch => batch.1 = key).map
        fun batch => sumOf counter batch.2).sum := by
  induction built with
  | nil => rfl
  | @cons record batch records batches own built ih =>
      have rest := ih fun other member => countable other (List.mem_cons_of_mem _ member)
      have total := own.2.total (countable batch List.mem_cons_self) counter
      by_cases same : batch.1 = key
      · have also : record.key = key := own.1.trans same
        simp only [List.filter_cons, same, also, decide_true, if_true, List.map_cons,
          List.sum_cons, total, rest]
      · have other : record.key ≠ key := fun equal => same (own.1.symm.trans equal)
        simp only [List.filter_cons, same, other, decide_false, Bool.false_eq_true, if_false, rest]

/-- What was reported and what is still open add up to what was fed. -/
theorem Kept.conserved {session : Session} (kept : session.Kept) (countable : session.Countable)
    (key : FlowKey) (counter : Counter) :
    session.reportedTotal key counter + session.openTotal key counter =
      sumOf counter (session.batches.contents key) := by
  have reported := reported_sum kept.tracks.built countable.closed key counter
  have opened : session.openTotal key counter = sumOf counter (session.batches.opened key) := by
    have own := kept.tracks.opened key
    have small := countable.opened key
    rw [openTotal]
    cases present : session.table.get key with
    | none =>
        rw [present] at own
        cases packets : session.batches.opened key with
        | nil => rfl
        | cons first rest =>
            rw [packets] at own
            cases own
    | some flow =>
        rw [present] at own
        cases own with
        | present built => exact built.total small counter
  rw [reportedTotal, reported, opened, sumOf, sumOf, Batches.sum_contents, Batches.closedOf,
    List.map_map]
  rfl

end Session

def CaptureEvent.timeUs : CaptureEvent → Option Int
  | .observe obs => some obs.timestampUs
  | .flushDue nowUs => some nowUs
  | .flushAll => none

def NeverDecreases (events : List CaptureEvent) : Prop :=
  (events.filterMap CaptureEvent.timeUs).Pairwise (· ≤ ·)

instance (events : List CaptureEvent) : Decidable (NeverDecreases events) :=
  inferInstanceAs (Decidable (List.Pairwise _ _))

/-- The difference of no two times of the calls wraps around. -/
def WithinReach (events : List CaptureEvent) : Prop :=
  ∀ earlier ∈ events.filterMap CaptureEvent.timeUs, ∀ later ∈ events.filterMap CaptureEvent.timeUs,
    later - earlier < 9223372036854775808

instance (events : List CaptureEvent) : Decidable (WithinReach events) :=
  inferInstanceAs (Decidable (∀ _ ∈ _, ∀ _ ∈ _, _))

/-- Seen at a time that no packet is after, no flow reaches the active timeout. -/
structure Timely (sinceUs nowUs : Int) (table : FlowTable) (emitted : List FlowRecord) :
    Prop where
  positive : 0 < table.activeUs
  begun : sinceUs ≤ nowUs
  reach : nowUs - sinceUs < 9223372036854775808
  since : ∀ key flow, table.get key = some flow →
    sinceUs ≤ flow.firstPacketUs ∧ flow.firstPacketUs ≤ nowUs
  past : ∀ key flow, table.get key = some flow → flow.lastPacketUs ≤ nowUs
  opened : ∀ key flow, table.get key = some flow →
    flow.lastPacketUs - flow.firstPacketUs < table.activeUs
  emitted : ∀ record ∈ emitted,
    record.flow.lastPacketUs - record.flow.firstPacketUs < table.activeUs

theorem Timely.later {sinceUs nowUs laterUs : Int} {table : FlowTable}
    {emitted : List FlowRecord} (timely : Timely sinceUs nowUs table emitted)
    (order : nowUs ≤ laterUs) (reach : laterUs - sinceUs < 9223372036854775808) :
    Timely sinceUs laterUs table emitted where
  positive := timely.positive
  begun := timely.begun.trans order
  reach := reach
  since := fun key flow present =>
    ⟨(timely.since key flow present).1, (timely.since key flow present).2.trans order⟩
  past := fun key flow present => (timely.past key flow present).trans order
  opened := timely.opened
  emitted := timely.emitted

theorem Timely.recorded {sinceUs : Int} {table : FlowTable} {emitted : List FlowRecord}
    {obs : Observation} {flow : MicroFlow} (timely : Timely sinceUs obs.timestampUs table emitted)
    (recorded : table.Recorded obs flow) :
    (sinceUs ≤ flow.firstPacketUs ∧ flow.firstPacketUs ≤ obs.timestampUs) ∧
      flow.lastPacketUs - flow.firstPacketUs < table.activeUs := by
  have last := recorded.lastPacketUs_eq timely.past
  have positive := timely.positive
  have begun := timely.begun
  rw [last]
  cases recorded with
  | fresh known =>
      have first : ((MicroFlow.new obs known).record obs).firstPacketUs = obs.timestampUs :=
        min_self obs.timestampUs
      omega
  | @further old present current =>
      have since := timely.since obs.key old present
      have reach := timely.reach
      have exact' : wrappingSub obs.timestampUs old.firstPacketUs =
          obs.timestampUs - old.firstPacketUs := wrappingSub_exact (by omega) (by omega)
      have young : ¬ table.activeUs ≤ wrappingSub obs.timestampUs old.firstPacketUs := by
        intro aged
        rw [FlowTable.due, decide_eq_true (.inl aged)] at current
        cases current
      have first : (old.record obs).firstPacketUs = min old.firstPacketUs obs.timestampUs := rfl
      omega

theorem Timely.move {sinceUs nowUs : Int} {before after : FlowTable} {move : Move}
    {emitted : List FlowRecord} (step : before.Step move after) (time : move.At nowUs)
    (timely : Timely sinceUs nowUs before emitted) :
    Timely sinceUs nowUs after (emitted ++ move.emits) := by
  have limits := step.sameLimits
  refine ⟨limits.active ▸ timely.positive, timely.begun, timely.reach, ?_, ?_, ?_, ?_⟩
  · intro key flow held
    rcases step.opened held with earlier | ⟨obs, rfl, recorded⟩
    · exact timely.since key flow earlier
    · have now : obs.timestampUs = nowUs := time
      subst now
      exact (timely.recorded recorded).1
  · intro key flow held
    rcases step.opened held with earlier | ⟨obs, rfl, recorded⟩
    · exact timely.past key flow earlier
    · have now : obs.timestampUs = nowUs := time
      subst now
      exact (recorded.lastPacketUs_eq timely.past).le
  · intro key flow held
    rw [limits.active]
    rcases step.opened held with earlier | ⟨obs, rfl, recorded⟩
    · exact timely.opened key flow earlier
    · have now : obs.timestampUs = nowUs := time
      subst now
      exact (timely.recorded recorded).2
  · intro record member
    rw [limits.active]
    rcases List.mem_append.mp member with earlier | last
    · exact timely.emitted record earlier
    · exact timely.opened record.key record.flow (step.emitted record last)

namespace Session

theorem step_timely {sinceUs nowUs laterUs : Int} {session : Session} (event : CaptureEvent)
    (kept : session.Kept) (timely : Timely sinceUs nowUs session.table session.emitted)
    (time : ∀ t ∈ event.timeUs, t = laterUs) (order : nowUs ≤ laterUs)
    (reach : laterUs - sinceUs < 9223372036854775808) :
    Timely sinceUs laterUs (session.step event).table (session.step event).emitted := by
  have moves := FlowTable.perform_moves kept.bounded event
  have at' : ∀ move ∈ (session.table.perform event).2.map Move.close ++ event.rest,
      move.At laterUs := by
    intro move member
    rcases List.mem_append.mp member with closes | rest
    · rcases List.mem_map.mp closes with ⟨record, -, rfl⟩
      trivial
    · cases event with
      | observe obs =>
          rw [List.mem_singleton.mp rest]
          exact time _ rfl
      | flushDue nowUs =>
          rw [List.mem_singleton.mp rest]
          trivial
      | flushAll => cases rest
  have all := moves.preserves (fun step time => Timely.move step time) at'
    (timely.later order reach)
  rw [emits_of_call] at all
  exact all

theorem run_timely {sinceUs nowUs : Int} {session : Session} (kept : session.Kept)
    (timely : Timely sinceUs nowUs session.table session.emitted) {events : List CaptureEvent}
    (after : ∀ t ∈ events.filterMap CaptureEvent.timeUs, nowUs ≤ t)
    (reach : ∀ t ∈ events.filterMap CaptureEvent.timeUs, t - sinceUs < 9223372036854775808)
    (ordered : NeverDecreases events) :
    ∃ laterUs, Timely sinceUs laterUs (Runs.run Session.step session events).table
      (Runs.run Session.step session events).emitted := by
  induction events generalizing session nowUs with
  | nil => exact ⟨nowUs, timely⟩
  | cons event rest ih =>
      unfold NeverDecreases at ordered
      cases time : event.timeUs with
      | none =>
          rw [List.filterMap_cons_none time] at after reach ordered
          have untimed : ∀ t ∈ event.timeUs, t = nowUs := by simp [time]
          have next := step_timely event kept timely untimed (Int.le_refl nowUs) timely.reach
          exact ih (kept.step event) next after reach ordered
      | some timeUs =>
          rw [List.filterMap_cons_some time] at after reach ordered
          have timed : ∀ t ∈ event.timeUs, t = timeUs := by simp [time]
          have next := step_timely event kept timely timed (after timeUs List.mem_cons_self)
            (reach timeUs List.mem_cons_self)
          exact ih (kept.step event) next (List.pairwise_cons.mp ordered).1
            (List.forall_mem_cons.mp reach).2 (List.pairwise_cons.mp ordered).2

end Session

namespace Session

theorem run_sameLimits {session : Session} (kept : session.Kept) (events : List CaptureEvent) :
    session.table.SameLimits (Runs.run Session.step session events).table := by
  induction events generalizing session with
  | nil => exact ⟨rfl, rfl, rfl⟩
  | cons event rest ih =>
      have first := (FlowTable.perform_moves kept.bounded event).sameLimits
      have later := ih (kept.step event)
      exact ⟨later.capacity.trans first.capacity, later.idle.trans first.idle,
        later.active.trans first.active⟩

end Session

theorem earliest {events : List CaptureEvent} (ordered : NeverDecreases events)
    (reach : WithinReach events) : ∃ firstUs, ∀ t ∈ events.filterMap CaptureEvent.timeUs,
      firstUs ≤ t ∧ t - firstUs < 9223372036854775808 := by
  unfold NeverDecreases at ordered
  unfold WithinReach at reach
  cases times : events.filterMap CaptureEvent.timeUs with
  | nil => exact ⟨0, fun t member => absurd member List.not_mem_nil⟩
  | cons firstUs rest =>
      rw [times] at ordered reach
      refine ⟨firstUs, ?_⟩
      intro t member
      have near := reach firstUs List.mem_cons_self t member
      rcases List.mem_cons.mp member with rfl | later
      · exact ⟨Int.le_refl t, near⟩
      · exact ⟨(List.pairwise_cons.mp ordered).1 t later, near⟩

/-- What can be relied on after these calls, at this capacity and active timeout. -/
structure LosesNothing (capacity : Nat) (activeUs : Int) (session : Session)
    (events : List CaptureEvent) : Prop where
  /-- The packets of a key are cut into consecutive batches, the last one open. -/
  contiguous : ∀ key, session.batches.contents key = packetsOf key events
  /-- Every record stands for the packets of one closed batch. -/
  built : List.Forall₂ (fun record batch => record.key = batch.1 ∧ record.flow.BuiltFrom batch.2)
    session.emitted session.batches.closed
  opened : ∀ key, OpenFrom (session.table.get key) (session.batches.opened key)
  conserved : session.Countable → ∀ key counter,
    session.reportedTotal key counter + session.openTotal key counter =
      sumOf counter (packetsOf key events)
  bounded : session.table.len ≤ capacity
  evicts : ∀ obs key, (session.table.upsert obs).2.2 = .evicted key →
    ∃ flow, session.table.Evicts (session.table.upsert obs).1 obs (session.table.upsert obs).2.1
      key flow
  spans : NeverDecreases events → WithinReach events → ∀ record ∈ session.emitted,
    record.flow.lastPacketUs - record.flow.firstPacketUs < activeUs

theorem fresh_timely (capacity : Nat) (capacity_pos : 0 < capacity) (idleUs : Int) {activeUs : Int}
    (active_pos : 0 < activeUs) (nowUs : Int) :
    Timely nowUs nowUs (.withTimeouts capacity capacity_pos idleUs activeUs) [] := by
  have closed := FlowTable.get_withTimeouts capacity capacity_pos idleUs activeUs
  refine ⟨active_pos, Int.le_refl nowUs, by omega, ?_, ?_, ?_,
    fun record member => absurd member List.not_mem_nil⟩
  · intro key flow held
    exact (FlowTable.not_open (closed key) held).elim
  · intro key flow held
    exact (FlowTable.not_open (closed key) held).elim
  · intro key flow held
    exact (FlowTable.not_open (closed key) held).elim

/-- For every sequence of calls on a fresh table, whatever its idle timeout. -/
theorem aggregation_loses_nothing (capacity : Nat) (capacity_pos : 0 < capacity)
    (idleUs activeUs : Int) (active_pos : 0 < activeUs) (events : List CaptureEvent) :
    LosesNothing capacity activeUs (Runs.run Session.step
      (.start (.withTimeouts capacity capacity_pos idleUs activeUs)) events) events := by
  have fresh := Session.start_kept capacity capacity_pos idleUs activeUs
  have kept := fresh.run events
  have limits := Session.run_sameLimits fresh events
  have contents := Session.run_contents
    (.start (.withTimeouts capacity capacity_pos idleUs activeUs)) events
  refine ⟨contents, kept.tracks.built, kept.tracks.opened, ?_, ?_, ?_, ?_⟩
  · intro countable key counter
    rw [kept.conserved countable key counter, contents key]
    rfl
  · exact kept.bounded.trans_eq limits.capacity
  · intro obs key evicted
    exact FlowTable.upsert_evicts kept.bounded evicted
  · intro ordered reach record member
    rcases earliest ordered reach with ⟨firstUs, times⟩
    have start := fresh_timely capacity capacity_pos idleUs active_pos firstUs
    rcases Session.run_timely fresh start (fun t timed => (times t timed).1)
      (fun t timed => (times t timed).2) ordered with ⟨laterUs, timely⟩
    exact (timely.emitted record member).trans_eq limits.active

def packetTo (port : UInt16) (timestampUs : Int) (fromDevice : Bool) : Observation where
  key :=
    { deviceMac := .ofOctets 2 0 0 0 0 1
      deviceIp := .ofOctets 10 0 0 2
      remoteIp := .ofOctets 93 184 216 34
      devicePort := 40000
      remotePort := port
      protocol := .tcp }
  timestampUs := timestampUs
  fromDevice := fromDevice
  bytes := 60
  tcpFlags := tcpSyn
  rejection := false
  dnsQuery := none

/-- A table of two flows: the third key evicts the first, whose next packet opens it again. -/
def crowdedCalls : List CaptureEvent :=
  [.observe (packetTo 80 0 true), .observe (packetTo 81 5 true), .observe (packetTo 80 7 false),
    .observe (packetTo 82 9 true), .observe (packetTo 81 10 false), .flushDue 1000009, .flushAll]

theorem crowded_loses_nothing :
    LosesNothing 2 1000000 (Runs.run Session.step
      (.start (.withTimeouts 2 (by decide) 500000 1000000)) crowdedCalls) crowdedCalls :=
  aggregation_loses_nothing 2 (by decide) 500000 1000000 (by decide) crowdedCalls

/-- Two packets at the first and at the last time there is. -/
def farApartCalls : List CaptureEvent :=
  [.observe (packetTo 80 (-9223372036854775808) true),
    .observe (packetTo 80 9223372036854775807 true), .flushAll]

/-- The time between them wraps around to -1, and they share a record. -/
theorem far_apart_share_record :
    ¬ ∀ (capacity : Nat) (capacity_pos : 0 < capacity) (idleUs activeUs : Int),
      0 < idleUs → 0 < activeUs → ∀ events : List CaptureEvent, NeverDecreases events →
        ∀ record ∈ (Runs.run Session.step
            (.start (.withTimeouts capacity capacity_pos idleUs activeUs)) events).emitted,
          record.flow.lastPacketUs - record.flow.firstPacketUs < activeUs := by
  intro claimed
  have spans := claimed 1 (by decide) 1000000 1000000 (by decide) (by decide) farApartCalls
    (by decide)
  have shown : (Runs.run Session.step (.start (.withTimeouts 1 (by decide) 1000000 1000000))
      farApartCalls).emitted.map (fun record =>
        record.flow.lastPacketUs - record.flow.firstPacketUs) = [18446744073709551615] := by
    decide +kernel
  rcases List.map_eq_cons_iff.mp shown with ⟨record, _, emitted, span, _⟩
  have short := spans record (emitted ▸ List.mem_cons_self)
  omega

end PiAgents.Capture
