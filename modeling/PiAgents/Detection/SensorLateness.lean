import PiAgents.Capture.Disorder
import PiAgents.Detection.DedupeAndLateness
import PiAgents.Detection.FlowWire

/-! The disorder of the sensor's records stays within the lateness that the job allows. -/

namespace PiAgents.Detection

/-- A record as it reaches the job: with its sequence and ingest time, and when it is processed. -/
structure Delivery where
  record : Capture.FlowRecord
  captureSequence : UInt64
  ingestTimeUnixMillis : Int64
  nowMs : Int64

def Delivery.bytes (delivery : Delivery) (gatewayId : String) : List UInt8 :=
  Capture.encodeFlowEvent gatewayId delivery.captureSequence delivery.ingestTimeUnixMillis
    delivery.record

/-- The packet time is an `i64` and the message a Java array. -/
structure Delivery.Fits (delivery : Delivery) (gatewayId : String) : Prop where
  least : -2 ^ 63 ≤ delivery.record.flow.lastPacketUs
  bound : delivery.record.flow.lastPacketUs < 2 ^ 63
  array : (delivery.bytes gatewayId).length < 2 ^ 31

/-- What the operator of a device gets of a delivery: malformed records and those of the other
devices go elsewhere. -/
def Delivery.arrival (errorText : List UInt8 → String) (gatewayId deviceKey : String)
    (delivery : Delivery) : Option Arrival :=
  let flow := deserialize errorText (some (delivery.bytes gatewayId))
  if flow.malformedReason = none ∧ flow.deviceKey = deviceKey then
    some ⟨flow.toFlowRecord, delivery.nowMs⟩
  else none

namespace DedupeRun

def Timely (run : DedupeRun) (arrival : Arrival) : Prop :=
  ∀ event, run.verdict arrival ≠ .late event

/-- The device clock is that of an event, and not far ahead of these records. -/
structure Near (run : DedupeRun) (latenessMs : Int64) (records : List Capture.FlowRecord) :
    Prop where
  lateness : run.operator.latenessMs = latenessMs
  clock : ∀ clock ∈ run.operator.deviceClock, 0 < clock.toInt ∧
    ∀ record ∈ records, clock.toInt ≤ record.flow.lastPacketUs / 1000 + 1000

theorem processElement_clock (s : DedupeAndLateness) (record : FlowRecord) (nowMs : Int64) :
    (s.processElement record nowMs).1.latenessMs = s.latenessMs ∧
      ((s.processElement record nowMs).1.deviceClock = s.deviceClock ∨
        (s.processElement record nowMs).1.deviceClock = some record.eventTimeMs) := by
  unfold DedupeAndLateness.processElement
  by_cases known : s.contains record.eventId nowMs = true
  · rw [if_pos known]
    exact ⟨rfl, .inl rfl⟩
  · simp only [known, Bool.false_eq_true, if_false]
    split
    · exact ⟨rfl, .inl rfl⟩
    · refine ⟨rfl, ?_⟩
      cases held : s.deviceClock with
      | none => exact .inr rfl
      | some clock =>
          by_cases later : clock < record.eventTimeMs
          · exact .inr (if_pos later)
          · exact .inl (if_neg later)

theorem Near.not_tooLate {run : DedupeRun} {latenessMs : Int64}
    {records : List Capture.FlowRecord} (near : run.Near latenessMs records)
    (allowed : 1000 ≤ latenessMs) {record : Capture.FlowRecord} (member : record ∈ records)
    {flow : FlowRecord} (time : flow.eventTimeMs.toInt = record.flow.lastPacketUs / 1000) :
    run.operator.isTooLate flow = false := by
  rw [DedupeAndLateness.isTooLate]
  cases held : run.operator.deviceClock with
  | none => rfl
  | some clock =>
      rcases near.clock clock held with ⟨positive, close⟩
      have thousand : (1000 : Int64).toInt = 1000 := rfl
      have least := Int64.le_iff_toInt_le.mp allowed
      have small := latenessMs.toInt_lt
      have large := clock.toInt_lt
      have ahead := close record member
      have behind := Exact.sub clock latenessMs (by omega) (by omega)
      rw [near.lateness]
      apply decide_eq_false
      rw [Int64.lt_iff_toInt_lt, behind, time]
      omega

theorem timely_of_not_tooLate {run : DedupeRun} {arrival : Arrival}
    (inTime : run.operator.isTooLate arrival.record = false) : run.Timely arrival := by
  intro event late
  cases run.step_judged arrival with
  | duplicate remembered verdict =>
      rw [verdict] at late
      cases late
  | late other forgotten tooLate =>
      rw [tooLate] at inTime
      cases inTime
  | accepted forgotten timely verdict =>
      rw [verdict] at late
      cases late

theorem Near.step {run : DedupeRun} {latenessMs : Int64} {record : Capture.FlowRecord}
    {records : List Capture.FlowRecord} (near : run.Near latenessMs (record :: records))
    (ordered : ∀ later ∈ records, Capture.WithinOf 1000000 record later) {arrival : Arrival}
    (time : arrival.record.eventTimeMs.toInt = record.flow.lastPacketUs / 1000)
    (positive : 0 < record.flow.lastPacketUs / 1000) :
    (run.step arrival).Near latenessMs records := by
  rcases processElement_clock run.operator arrival.record arrival.nowMs with ⟨lateness, moved⟩
  refine ⟨lateness.trans near.lateness, ?_⟩
  intro clock held
  rcases moved with same | event
  · rcases near.clock clock (same ▸ held) with ⟨after, close⟩
    exact ⟨after, fun later member => close later (List.mem_cons_of_mem _ member)⟩
  · have own : arrival.record.eventTimeMs = clock := Option.some.inj (event.symm.trans held)
    rw [← own, time]
    refine ⟨positive, ?_⟩
    intro later member
    have within : record.flow.lastPacketUs ≤ later.flow.lastPacketUs + 1000000 :=
      ordered later member
    omega

theorem run_timely (errorText : List UInt8 → String) (gatewayId deviceKey : String)
    {latenessMs : Int64} (allowed : 1000 ≤ latenessMs) {deliveries : List Delivery}
    (ordered : (deliveries.map Delivery.record).Pairwise (Capture.WithinOf 1000000))
    (fits : ∀ delivery ∈ deliveries, delivery.Fits gatewayId) {run : DedupeRun}
    (near : run.Near latenessMs (deliveries.map Delivery.record)) :
    Runs.Meets step Timely run
      (deliveries.filterMap (Delivery.arrival errorText gatewayId deviceKey)) := by
  induction deliveries generalizing run with
  | nil => trivial
  | cons delivery rest ih =>
      have parts := List.pairwise_cons.mp ordered
      have fit := fits delivery List.mem_cons_self
      have restFits : ∀ other ∈ rest, other.Fits gatewayId :=
        fun other member => fits other (List.mem_cons_of_mem _ member)
      cases arrives : delivery.arrival errorText gatewayId deviceKey with
      | none =>
          rw [List.filterMap_cons_none arrives]
          refine ih parts.2 restFits ⟨near.lateness, ?_⟩
          intro clock held
          rcases near.clock clock held with ⟨positive, close⟩
          exact ⟨positive, fun other member => close other (List.mem_cons_of_mem _ member)⟩
      | some arrival =>
          rw [List.filterMap_cons_some arrives]
          unfold Delivery.arrival at arrives
          by_cases taken : (deserialize errorText (some (delivery.bytes gatewayId))).malformedReason =
              none ∧ (deserialize errorText (some (delivery.bytes gatewayId))).deviceKey = deviceKey
          · simp only [if_pos taken] at arrives
            have time := usable_eventTime fit.least fit.bound fit.array taken.1
            have same := Option.some.inj arrives
            have own : arrival.record.eventTimeMs.toInt =
                delivery.record.flow.lastPacketUs / 1000 := same ▸ time.1
            refine ⟨?_, ih parts.2 restFits (near.step parts.1 own time.2)⟩
            exact timely_of_not_tooLate (near.not_tooLate allowed List.mem_cons_self own)
          · simp only [if_neg taken] at arrives
            cases arrives

end DedupeRun

/-- Every record of a replay stays within a second of the ones emitted before it, and none that is
delivered in this order is sent to the late events, at a lateness of a second or more. -/
theorem replay_within_lateness (clients : Capture.Clients) (capacity : Nat)
    (capacity_pos : 0 < capacity) (frames : List Capture.Frame)
    (ordered : frames.Pairwise fun earlier later => earlier.timestampUs ≤ later.timestampUs) :
    ((Capture.Sensor.new clients (.new capacity capacity_pos)).replay frames).Pairwise
      (Capture.WithinOf 1000000) ∧
    ∀ (errorText : List UInt8 → String) (gatewayId deviceKey : String)
      (latenessMs longestHorizonMs : Int64), 1000 ≤ latenessMs → ∀ deliveries : List Delivery,
      (deliveries.map Delivery.record).Sublist
        ((Capture.Sensor.new clients (.new capacity capacity_pos)).replay frames) →
      (∀ delivery ∈ deliveries, delivery.Fits gatewayId) →
      Runs.Meets DedupeRun.step DedupeRun.Timely (.start latenessMs longestHorizonMs)
        (deliveries.filterMap (Delivery.arrival errorText gatewayId deviceKey)) := by
  have disorder := Capture.replay_disorder clients capacity capacity_pos ordered
  refine ⟨disorder, ?_⟩
  intro errorText gatewayId deviceKey latenessMs longestHorizonMs allowed deliveries sent fits
  apply DedupeRun.run_timely errorText gatewayId deviceKey allowed (disorder.sublist sent) fits
  refine ⟨rfl, ?_⟩
  intro clock held
  cases held

/-- Two flows of one device through a table of one: each frame evicts the flow before it. -/
def crowdedFrames : List Capture.Frame :=
  let ssh := Capture.tcpFrame Capture.macA Capture.macB [192, 168, 50, 10] [192, 168, 50, 11]
    [0x9c, 0x40] [0, 22] Capture.tcpSyn
  let telnet := Capture.tcpFrame Capture.macA Capture.macB [192, 168, 50, 10] [192, 168, 50, 11]
    [0x9c, 0x41] [0, 23] Capture.tcpSyn
  [⟨⟨1767225600000000, 54, ssh⟩, by decide⟩, ⟨⟨1767225600400000, 54, telnet⟩, by decide⟩,
    ⟨⟨1767225601300000, 54, ssh⟩, by decide⟩]

@[irreducible] def crowdedRecords : List Capture.FlowRecord :=
  (Capture.Sensor.new ⟨{.ofOctets 2 0 0 0 0 10}⟩ (.new 1 (by decide))).replay crowdedFrames

def sentOnce (record : Capture.FlowRecord) : Delivery := ⟨record, 1, 1767225602000, 1767225602000⟩

theorem replay_within_lateness_crowded :
    crowdedRecords.map (fun record => record.flow.lastPacketUs) =
        [1767225600000000, 1767225600400000, 1767225601300000] ∧
      crowdedRecords.Pairwise (Capture.WithinOf 1000000) ∧
      Runs.Meets DedupeRun.step DedupeRun.Timely (.start 1000 900000)
        ((crowdedRecords.map sentOnce).filterMap
          (Delivery.arrival (fun _ => "") "gw" "gw:02:00:00:00:00:0a")) := by
  have both := replay_within_lateness ⟨{.ofOctets 2 0 0 0 0 10}⟩ 1 (by decide) crowdedFrames
    (by decide)
  rw [← crowdedRecords.eq_1] at both
  have all : (crowdedRecords.map sentOnce).map Delivery.record = crowdedRecords := by
    rw [List.map_map]
    exact List.map_id crowdedRecords
  have small : ∀ record ∈ crowdedRecords, -2 ^ 63 ≤ record.flow.lastPacketUs ∧
      record.flow.lastPacketUs < 2 ^ 63 ∧ ((sentOnce record).bytes "gw").length < 2 ^ 31 := by
    decide +kernel
  have fits : ∀ delivery ∈ crowdedRecords.map sentOnce, delivery.Fits "gw" := by
    intro delivery member
    rcases List.mem_map.mp member with ⟨record, replayed, rfl⟩
    rcases small record replayed with ⟨least, bound, array⟩
    exact ⟨least, bound, array⟩
  have sent : ((crowdedRecords.map sentOnce).map Delivery.record).Sublist crowdedRecords := by
    rw [all]
  have inTime := both.2 (fun _ => "") "gw" "gw:02:00:00:00:00:0a" 1000 900000 (by decide)
    (crowdedRecords.map sentOnce) sent fits
  exact ⟨by decide +kernel, both.1, inTime⟩

end PiAgents.Detection
