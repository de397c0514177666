import PiAgents.Capture.Conversation
import PiAgents.Capture.Moves
import PiAgents.Capture.PcapFile

/-! `replay`: the records of a capture come out in the order of their last packets, up to the idle
timeout. -/

namespace PiAgents.Capture

/-- A file has 32 bits for the seconds and 32 bits for the fraction. -/
def lastCaptureUs : Int := 4294967295 * 1000000 + 4294967295

structure Frame extends PcapRecord where
  captured : 0 ≤ timestampUs ∧ timestampUs ≤ lastCaptureUs

theorem PcapReader.next_frame {reader after : PcapReader} {record : PcapRecord}
    (given : reader.next = (some (.ok record), after)) :
    ∃ frame : Frame, frame.toPcapRecord = record := by
  rw [PcapReader.next] at given
  split at given
  · cases given
  · split at given
    · next secs frac captured wireLen _ _ _ _ =>
        dsimp only at given
        split at given
        · cases given
        · have seconds := secs.toNat_lt
          have fraction := frac.toNat_lt
          have same := Except.ok.inj (Option.some.inj (Prod.mk.inj given).1)
          have time : 0 ≤ record.timestampUs ∧ record.timestampUs ≤ lastCaptureUs := by
            rw [← same, lastCaptureUs]
            dsimp only
            split <;> omega
          exact ⟨⟨record, time⟩, rfl⟩
    · cases given

/-- The records that an offline replay emits. A panic of the parser ends the process before the
records of its frame are passed on. -/
def Sensor.replay (sensor : Sensor) : List Frame → List FlowRecord
  | [] => sensor.flushAll.2
  | frame :: frames =>
      let (sensor, flushed) := sensor.flushDue frame.timestampUs
      match sensor.processFrame frame.timestampUs frame.data frame.wireLen with
      | .ok (sensor, out) => flushed ++ out ++ sensor.replay frames
      | .error () => []

/-- The last packet of the earlier record is after that of the later one by no more than this. -/
def WithinOf (disorderUs : Int) (earlier later : FlowRecord) : Prop :=
  earlier.flow.lastPacketUs ≤ later.flow.lastPacketUs + disorderUs

/-- Every open flow had a packet lately, and no record is far ahead of a record that is still to
come. -/
structure Close (disorderUs nowUs : Int) (table : FlowTable) (emitted : List FlowRecord) :
    Prop where
  past : ∀ key flow, table.get key = some flow → flow.lastPacketUs ≤ nowUs
  recent : ∀ key flow, table.get key = some flow → nowUs ≤ flow.lastPacketUs + disorderUs
  before : ∀ record ∈ emitted, record.flow.lastPacketUs ≤ nowUs
  apart : ∀ record ∈ emitted, ∀ key flow, table.get key = some flow →
    record.flow.lastPacketUs ≤ flow.lastPacketUs + disorderUs
  ordered : emitted.Pairwise (WithinOf disorderUs)

theorem Close.move {disorderUs nowUs : Int} (positive : 0 ≤ disorderUs) {before after : FlowTable}
    {move : Move} {emitted : List FlowRecord} (step : before.Step move after)
    (time : move.At nowUs) (close : Close disorderUs nowUs before emitted) :
    Close disorderUs nowUs after (emitted ++ move.emits) := by
  have last : ∀ {obs flow}, move = .observe obs → before.Recorded obs flow →
      flow.lastPacketUs = nowUs := by
    rintro obs flow rfl recorded
    have now : obs.timestampUs = nowUs := time
    exact (recorded.lastPacketUs_eq (now ▸ close.past)).trans now
  have emits : ∀ record ∈ move.emits, record.flow.lastPacketUs ≤ nowUs := by
    intro record member
    exact close.past record.key record.flow (step.emitted record member)
  refine ⟨?_, ?_, ?_, ?_, ?_⟩
  · intro key flow held
    rcases step.opened held with earlier | ⟨obs, observed, recorded⟩
    · exact close.past key flow earlier
    · exact (last observed recorded).le
  · intro key flow held
    rcases step.opened held with earlier | ⟨obs, observed, recorded⟩
    · exact close.recent key flow earlier
    · have now := last observed recorded
      omega
  · intro record member
    rcases List.mem_append.mp member with earlier | new
    · exact close.before record earlier
    · exact emits record new
  · intro record member key flow held
    rcases step.opened held with earlier | ⟨obs, observed, recorded⟩
    · rcases List.mem_append.mp member with old | new
      · exact close.apart record old key flow earlier
      · exact (emits record new).trans (close.recent key flow earlier)
    · have now := last observed recorded
      rcases List.mem_append.mp member with old | new
      · have past := close.before record old
        omega
      · have past := emits record new
        omega
  · apply List.pairwise_append.mpr
    refine ⟨close.ordered, ?_, ?_⟩
    · cases move with
      | close record => exact List.pairwise_singleton _ record
      | observe obs => exact .nil
      | forget => exact .nil
    · intro record old other new
      exact close.apart record old other.key other.flow (step.emitted other new)

theorem Close.moves {disorderUs nowUs : Int} (positive : 0 ≤ disorderUs) {before after : FlowTable}
    {moves : List Move} {emitted : List FlowRecord} (all : before.Moves moves after)
    (times : ∀ move ∈ moves, move.At nowUs) (close : Close disorderUs nowUs before emitted) :
    Close disorderUs nowUs after (emitted ++ moves.flatMap Move.emits) :=
  all.preserves (fun step time => Close.move positive step time) times close

namespace FlowTable

theorem flushDue_current {table : FlowTable} {nowUs : Int} {key : FlowKey} {flow : MicroFlow}
    (held : (table.flushDue nowUs).1.get key = some flow) :
    table.get key = some flow ∧ table.due flow nowUs = false := by
  have closes := flush_due_closes table nowUs
  have unreported : ∀ record ∈ (table.flushDue nowUs).2, record.key ≠ key := by
    intro record member same
    have gone := closes.closed record member
    rw [same, held] at gone
    cases gone
  have earlier := (closes.kept key unreported).symm.trans held
  refine ⟨earlier, ?_⟩
  by_contra due
  have listed : key ∈ ((table.entries.entries.filter fun entry =>
      table.due entry.2 nowUs).insertionSort flushOrder).map Sigma.fst := by
    apply List.mem_map.mpr
    refine ⟨⟨key, flow⟩, ?_, rfl⟩
    rw [List.mem_insertionSort]
    exact List.mem_filter.mpr ⟨mem_entries_iff_lookup.mpr earlier,
      Bool.eq_true_of_not_eq_false due⟩
  have removed : (table.flushDue nowUs).1.get key = none := drain_keys_removes table _ key listed
  exact not_open removed held

end FlowTable

theorem Close.flushDue {disorderUs nowUs laterUs : Int} (positive : 0 ≤ disorderUs)
    {table : FlowTable} {emitted : List FlowRecord} (idle : table.idleUs = disorderUs)
    (close : Close disorderUs nowUs table emitted) (order : nowUs ≤ laterUs)
    (reach : laterUs + disorderUs - nowUs < 9223372036854775808) :
    Close disorderUs laterUs (table.flushDue laterUs).1
      (emitted ++ (table.flushDue laterUs).2) := by
  have moves := FlowTable.flushDue_moves table laterUs
  have times : ∀ move ∈ (table.flushDue laterUs).2.map Move.close ++ [.forget],
      move.At nowUs := by
    intro move member
    rcases List.mem_append.mp member with closes | rest
    · rcases List.mem_map.mp closes with ⟨record, -, rfl⟩
      trivial
    · rw [List.mem_singleton.mp rest]
      trivial
  have drained := close.moves positive moves times
  have emits : ((table.flushDue laterUs).2.map Move.close ++ [Move.forget]).flatMap Move.emits =
      (table.flushDue laterUs).2 := by
    rw [List.flatMap_append, FlowTable.emits_of_closes]
    exact List.append_nil _
  rw [emits] at drained
  refine ⟨?_, ?_, ?_, drained.apart, drained.ordered⟩
  · intro key flow held
    exact (drained.past key flow held).trans order
  · intro key flow held
    rcases FlowTable.flushDue_current held with ⟨earlier, current⟩
    have past := close.past key flow earlier
    have recent := close.recent key flow earlier
    have exact' : wrappingSub laterUs flow.lastPacketUs = laterUs - flow.lastPacketUs :=
      wrappingSub_exact (by omega) (by omega)
    have young : ¬ table.idleUs ≤ wrappingSub laterUs flow.lastPacketUs := by
      intro idleFor
      rw [FlowTable.due, decide_eq_true (.inr idleFor)] at current
      cases current
    omega
  · intro record member
    exact (drained.before record member).trans order

theorem Close.upsert {disorderUs : Int} (positive : 0 ≤ disorderUs) {table : FlowTable}
    (bounded : table.Bounded) {emitted : List FlowRecord} {obs : Observation}
    (close : Close disorderUs obs.timestampUs table emitted) :
    Close disorderUs obs.timestampUs (table.upsert obs).1 (emitted ++ (table.upsert obs).2.1) := by
  have moves := FlowTable.upsert_moves table bounded obs
  have times : ∀ move ∈ (table.upsert obs).2.1.map Move.close ++ [.observe obs],
      move.At obs.timestampUs := by
    intro move member
    rcases List.mem_append.mp member with closes | rest
    · rcases List.mem_map.mp closes with ⟨record, -, rfl⟩
      trivial
    · rw [List.mem_singleton.mp rest]
      rfl
  have all := close.moves positive moves times
  rw [List.flatMap_append, FlowTable.emits_of_closes] at all
  exact (List.append_nil (table.upsert obs).2.1) ▸ all

theorem Close.flushAll {disorderUs nowUs : Int} (positive : 0 ≤ disorderUs) {table : FlowTable}
    {emitted : List FlowRecord} (close : Close disorderUs nowUs table emitted) :
    (emitted ++ table.flushAll.2).Pairwise (WithinOf disorderUs) := by
  have times : ∀ move ∈ table.flushAll.2.map Move.close, move.At nowUs := by
    intro move closes
    rcases List.mem_map.mp closes with ⟨record, -, rfl⟩
    trivial
  have all := close.moves positive (FlowTable.flushAll_moves table) times
  rw [FlowTable.emits_of_closes] at all
  exact all.ordered

theorem observe_timestamp {clients : Clients} {packet : ParsedPacket} {timestampUs : Int}
    {obs : Observation} (observed : clients.observe packet timestampUs = some obs) :
    obs.timestampUs = timestampUs := by
  unfold Clients.observe at observed
  cases side : clients.attribute packet.srcMac packet.dstMac with
  | fromDevice mac =>
      simp only [side] at observed
      exact Option.some.inj observed ▸ rfl
  | toDevice mac =>
      simp only [side] at observed
      exact Option.some.inj observed ▸ rfl
  | unattributed =>
      simp only [side] at observed
      cases observed

theorem processFrame_table {sensor next : Sensor} {frame : Frame} {out : List FlowRecord}
    (ran : sensor.processFrame frame.timestampUs frame.data frame.wireLen = .ok (next, out)) :
    (next.table = sensor.table ∧ out = []) ∨
      ∃ obs, obs.timestampUs = frame.timestampUs ∧ next.table = (sensor.table.upsert obs).1 ∧
        out = (sensor.table.upsert obs).2.1 := by
  cases fed : sensor.feeds frame.timestampUs frame.data frame.wireLen with
  | none => exact .inl (process_frame_keeps_table _ _ _ _ _ _ fed ran)
  | some obs =>
      rcases process_frame_feeds _ _ _ _ obs fed with ⟨counted, table, call⟩
      have same := Prod.mk.inj (Except.ok.inj (ran.symm.trans call))
      refine .inr ⟨obs, ?_, ?_, ?_⟩
      · unfold Sensor.feeds at fed
        cases parsed : parseEthernet frame.data frame.wireLen with
        | error fault =>
            simp only [parsed] at fed
            cases fed
        | ok packet =>
            simp only [parsed] at fed
            exact observe_timestamp fed
      · rw [same.1, ← table]
        rfl
      · rw [same.2, ← table]
        rfl

theorem replay_close {disorderUs : Int} (positive : 0 ≤ disorderUs)
    (small : disorderUs ≤ 1000000) {frames : List Frame} {sensor : Sensor}
    {emitted : List FlowRecord} {nowUs : Int} (begun : 0 ≤ nowUs)
    (idle : sensor.table.idleUs = disorderUs) (bounded : sensor.table.Bounded)
    (close : Close disorderUs nowUs sensor.table emitted)
    (after : ∀ frame ∈ frames, nowUs ≤ frame.timestampUs)
    (ordered : frames.Pairwise fun earlier later => earlier.timestampUs ≤ later.timestampUs) :
    (emitted ++ sensor.replay frames).Pairwise (WithinOf disorderUs) := by
  induction frames generalizing sensor emitted nowUs with
  | nil => exact close.flushAll positive
  | cons frame frames ih =>
      have order := List.pairwise_cons.mp ordered
      have moves := FlowTable.flushDue_moves sensor.table frame.timestampUs
      have captured := frame.captured
      have reach : frame.timestampUs + disorderUs - nowUs < 9223372036854775808 := by
        rw [lastCaptureUs] at captured
        omega
      have flushed := close.flushDue positive idle (after frame List.mem_cons_self) reach
      have stillIdle := moves.sameLimits.idle.trans idle
      have stillBounded := moves.bounded bounded
      rw [Sensor.replay]
      cases ran : (sensor.flushDue frame.timestampUs).1.processFrame frame.timestampUs frame.data
          frame.wireLen with
      | error fault =>
          simp only [ran, List.append_nil]
          exact close.ordered
      | ok result =>
          rcases result with ⟨next, out⟩
          simp only [ran]
          rw [← List.append_assoc, ← List.append_assoc]
          rcases processFrame_table ran with ⟨table, none⟩ | ⟨obs, time, table, records⟩
          · have sameTable : next.table = (sensor.table.flushDue frame.timestampUs).1 := table
            rw [none, List.append_nil]
            apply ih captured.1 (sameTable ▸ stillIdle) (sameTable ▸ stillBounded) _ order.1 order.2
            exact sameTable ▸ flushed
          · have upserts := FlowTable.upsert_moves _ stillBounded obs
            have sameTable : next.table =
                ((sensor.table.flushDue frame.timestampUs).1.upsert obs).1 := table
            have sameOut : out = ((sensor.table.flushDue frame.timestampUs).1.upsert obs).2.1 :=
              records
            rw [← time] at flushed
            have recorded := flushed.upsert positive (time ▸ stillBounded)
            rw [time] at recorded
            rw [sameOut]
            apply ih captured.1 _ (sameTable ▸ upserts.bounded stillBounded) _ order.1 order.2
            · exact (sameTable ▸ upserts.sameLimits.idle).trans stillIdle
            · exact sameTable ▸ recorded

/-- With any capacity and any clients, no record's last packet is more than a second before that of
a record emitted earlier. -/
theorem replay_disorder (clients : Clients) (capacity : Nat) (capacity_pos : 0 < capacity)
    {frames : List Frame}
    (ordered : frames.Pairwise fun earlier later => earlier.timestampUs ≤ later.timestampUs) :
    ((Sensor.new clients (.new capacity capacity_pos)).replay frames).Pairwise
      (WithinOf 1000000) := by
  have closed := FlowTable.get_withTimeouts capacity capacity_pos defaultIdleUs defaultActiveUs
  have fresh : ∀ (nowUs : Int), Close 1000000 nowUs (.new capacity capacity_pos) [] := by
    intro nowUs
    refine ⟨?_, ?_, fun record member => absurd member List.not_mem_nil,
      fun record member => absurd member List.not_mem_nil, .nil⟩
    · intro key flow held
      exact (FlowTable.not_open (closed key) held).elim
    · intro key flow held
      exact (FlowTable.not_open (closed key) held).elim
  cases frames with
  | nil => exact (fresh 0).flushAll (by decide)
  | cons frame frames =>
      have first : ∀ other ∈ frame :: frames, frame.timestampUs ≤ other.timestampUs := by
        intro other member
        rcases List.mem_cons.mp member with rfl | later
        · exact Int.le_refl _
        · exact (List.pairwise_cons.mp ordered).1 other later
      have idle : (Sensor.new clients (.new capacity capacity_pos)).table.idleUs = 1000000 := rfl
      have bounded : (Sensor.new clients (.new capacity capacity_pos)).table.Bounded :=
        Nat.zero_le capacity
      exact replay_close (by decide) (by decide) frame.captured.1 idle bounded
        (fresh frame.timestampUs) first ordered

end PiAgents.Capture
