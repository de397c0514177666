import PiAgents.Lib.Runs
import PiAgents.Detection.WindowSpec

/-! `DedupeAndLateness` on one device: event IDs are remembered for a time of processing, and
events are late against a device clock that only moves with events. -/

namespace PiAgents.Detection

/-- An event routed to `traffic.late.v2`, with the reason. -/
structure LateEvent where
  reason : String
  detail : String
  deviceKey : String
  eventId : String
  eventTimeMs : Int64
  /-- The device clock when the event was classified. -/
  deviceClockMs : Int64
  deriving DecidableEq, Repr

def LateEvent.tooLate : String := "too_late"

def LateEvent.of (reason detail : String) (record : FlowRecord) (deviceClockMs : Int64) :
    LateEvent :=
  ⟨reason, detail, record.deviceKey, record.eventId, record.eventTimeMs, deviceClockMs⟩

/-- The keyed state of the operator; an entry of `seen` is an event time and the processing time
at which the entry was written. -/
structure DedupeAndLateness where
  latenessMs : Int64
  dedupeRetentionMs : Int64
  deviceClock : Option Int64
  seen : AList (fun _ : String => Int64 × Int64)

inductive Verdict where
  | duplicate
  | late (event : LateEvent)
  | accepted (record : FlowRecord)
  deriving DecidableEq, Repr

namespace DedupeAndLateness

def new (latenessMs longestHorizonMs : Int64) : DedupeAndLateness :=
  ⟨latenessMs, longestHorizonMs + latenessMs, none, ∅⟩

def contains (s : DedupeAndLateness) (eventId : String) (nowMs : Int64) : Bool :=
  match s.seen.lookup eventId with
  | none => false
  | some entry => nowMs.toInt < entry.2.toInt + s.dedupeRetentionMs.toInt

def isTooLate (s : DedupeAndLateness) (record : FlowRecord) : Bool :=
  match s.deviceClock with
  | none => false
  | some clock => record.eventTimeMs < clock - s.latenessMs

def processElement (s : DedupeAndLateness) (record : FlowRecord) (nowMs : Int64) :
    DedupeAndLateness × Verdict :=
  if s.contains record.eventId nowMs then (s, .duplicate)
  else
    let s := { s with seen := s.seen.insert record.eventId (record.eventTimeMs, nowMs) }
    if s.isTooLate record then
      let clock := s.deviceClock.getD 0
      (s, .late (.of LateEvent.tooLate ("event time is " ++ toString (clock - record.eventTimeMs) ++
        " ms behind the device clock") record clock))
    else
      let deviceClock := match s.deviceClock with
        | none => some record.eventTimeMs
        | some clock => if clock < record.eventTimeMs then some record.eventTimeMs else some clock
      ({ s with deviceClock }, .accepted record)

end DedupeAndLateness

structure Arrival where
  record : FlowRecord
  nowMs : Int64

/-- A run on one device: when each event ID was recorded, and the IDs that were accepted. -/
structure DedupeRun where
  operator : DedupeAndLateness
  wallMs : Int64
  recordings : List (String × Int64)
  accepted : List String

namespace DedupeRun

def start (latenessMs longestHorizonMs : Int64) : DedupeRun :=
  ⟨.new latenessMs longestHorizonMs, 0, [], []⟩

def verdict (run : DedupeRun) (arrival : Arrival) : Verdict :=
  (run.operator.processElement arrival.record arrival.nowMs).2

def step (run : DedupeRun) (arrival : Arrival) : DedupeRun where
  operator := (run.operator.processElement arrival.record arrival.nowMs).1
  wallMs := arrival.nowMs
  recordings := match run.verdict arrival with
    | .duplicate => run.recordings
    | _ => run.recordings ++ [(arrival.record.eventId, arrival.nowMs)]
  accepted := match run.verdict arrival with
    | .accepted record => run.accepted ++ [record.eventId]
    | _ => run.accepted

def Allowed (run : DedupeRun) (arrival : Arrival) : Prop := run.wallMs ≤ arrival.nowMs

instance (run : DedupeRun) (arrival : Arrival) : Decidable (run.Allowed arrival) :=
  inferInstanceAs (Decidable (_ ≤ _))

def Recent (run : DedupeRun) (arrival : Arrival) : Prop :=
  ∃ recording ∈ run.recordings, recording.1 = arrival.record.eventId ∧
    arrival.nowMs.toInt < recording.2.toInt + run.operator.dedupeRetentionMs.toInt

/-- A copy of an accepted event comes while its ID is remembered, or is too late. -/
def Covered (run : DedupeRun) (arrival : Arrival) : Prop :=
  arrival.record.eventId ∈ run.accepted →
    run.Recent arrival ∨ run.operator.isTooLate arrival.record

/-- The memory of the IDs against their recordings. -/
structure Remembering (run : DedupeRun) : Prop where
  past : ∀ recording ∈ run.recordings, recording.2.toInt ≤ run.wallMs.toInt
  known : ∀ eventId entry, run.operator.seen.lookup eventId = some entry →
    (eventId, entry.2) ∈ run.recordings ∧
      ∀ recording ∈ run.recordings, recording.1 = eventId → recording.2.toInt ≤ entry.2.toInt
  unknown : ∀ eventId, run.operator.seen.lookup eventId = none →
    ∀ recording ∈ run.recordings, recording.1 ≠ eventId

variable {run : DedupeRun}

theorem Remembering.contains_iff (remembering : run.Remembering) (arrival : Arrival) :
    run.operator.contains arrival.record.eventId arrival.nowMs = true ↔ run.Recent arrival := by
  rw [DedupeAndLateness.contains]
  cases held : run.operator.seen.lookup arrival.record.eventId with
  | none =>
      apply iff_of_false Bool.false_ne_true
      rintro ⟨recording, member, same, -⟩
      exact remembering.unknown _ held recording member same
  | some entry =>
      obtain ⟨member, newest⟩ := remembering.known _ entry held
      simp only [decide_eq_true_eq]
      constructor
      · exact fun visible => ⟨_, member, rfl, visible⟩
      · rintro ⟨recording, isRecording, same, visible⟩
        have order := newest recording isRecording same
        omega

theorem Remembering.record (remembering : run.Remembering) (eventId : String) (timeMs nowMs : Int64)
    (forward : run.wallMs.toInt ≤ nowMs.toInt) (operator : DedupeAndLateness)
    (seen : operator.seen = run.operator.seen.insert eventId (timeMs, nowMs))
    (accepted : List String) : Remembering
      ⟨operator, nowMs, run.recordings ++ [(eventId, nowMs)], accepted⟩ := by
  have older : ∀ recording ∈ run.recordings, recording.2.toInt ≤ nowMs.toInt := by
    intro recording member
    exact Int.le_trans (remembering.past recording member) forward
  constructor
  · intro recording member
    rcases List.mem_append.mp member with old | new
    · exact older recording old
    · rw [List.mem_singleton.mp new]
  · intro other entry held
    simp only [seen] at held
    by_cases same : other = eventId
    · subst same
      rw [AList.lookup_insert, Option.some.injEq] at held
      subst held
      refine ⟨List.mem_append_right _ (List.mem_singleton_self _), ?_⟩
      intro recording member _
      rcases List.mem_append.mp member with old | new
      · exact older recording old
      · rw [List.mem_singleton.mp new]
    · rw [AList.lookup_insert_ne same] at held
      obtain ⟨member, newest⟩ := remembering.known other entry held
      refine ⟨List.mem_append_left _ member, ?_⟩
      intro recording isRecording isOther
      rcases List.mem_append.mp isRecording with old | new
      · exact newest recording old isOther
      · rw [List.mem_singleton.mp new] at isOther
        exact absurd isOther.symm same
  · intro other absent recording member isOther
    simp only [seen] at absent
    by_cases same : other = eventId
    · subst same
      rw [AList.lookup_insert] at absent
      cases absent
    · rw [AList.lookup_insert_ne same] at absent
      rcases List.mem_append.mp member with old | new
      · exact remembering.unknown other absent recording old isOther
      · rw [List.mem_singleton.mp new] at isOther
        exact same isOther.symm

/-- What a step does: the ID is remembered, or it is recorded and the record judged. -/
inductive Judged (run : DedupeRun) (arrival : Arrival) : Prop where
  | duplicate (remembered : run.operator.contains arrival.record.eventId arrival.nowMs = true)
      (verdict : run.verdict arrival = .duplicate)
      (step : run.step arrival = { run with wallMs := arrival.nowMs })
  | late (event : LateEvent)
      (forgotten : run.operator.contains arrival.record.eventId arrival.nowMs = false)
      (tooLate : run.operator.isTooLate arrival.record = true)
      (verdict : run.verdict arrival = .late event)
      (step : ∃ operator : DedupeAndLateness, operator.seen = run.operator.seen.insert
          arrival.record.eventId (arrival.record.eventTimeMs, arrival.nowMs) ∧
        run.step arrival = ⟨operator, arrival.nowMs,
          run.recordings ++ [(arrival.record.eventId, arrival.nowMs)], run.accepted⟩)
  | accepted
      (forgotten : run.operator.contains arrival.record.eventId arrival.nowMs = false)
      (timely : run.operator.isTooLate arrival.record = false)
      (verdict : run.verdict arrival = .accepted arrival.record)
      (step : ∃ operator : DedupeAndLateness, operator.seen = run.operator.seen.insert
          arrival.record.eventId (arrival.record.eventTimeMs, arrival.nowMs) ∧
        run.step arrival = ⟨operator, arrival.nowMs,
          run.recordings ++ [(arrival.record.eventId, arrival.nowMs)],
          run.accepted ++ [arrival.record.eventId]⟩)

theorem step_judged (run : DedupeRun) (arrival : Arrival) : run.Judged arrival := by
  cases remembered : run.operator.contains arrival.record.eventId arrival.nowMs with
  | true =>
      have processed : run.operator.processElement arrival.record arrival.nowMs =
          (run.operator, .duplicate) := by
        simp only [DedupeAndLateness.processElement, remembered, if_true]
      apply Judged.duplicate remembered
      · simp only [verdict, processed]
      · simp only [step, verdict, processed]
  | false =>
      cases tooLate : run.operator.isTooLate arrival.record with
      | true =>
          have late : DedupeAndLateness.isTooLate { run.operator with
              seen := run.operator.seen.insert arrival.record.eventId
                (arrival.record.eventTimeMs, arrival.nowMs) } arrival.record = true := tooLate
          have processed := DedupeAndLateness.processElement.eq_1 run.operator arrival.record
            arrival.nowMs
          simp only [remembered, Bool.false_eq_true, if_false, late, if_true] at processed
          apply Judged.late _ remembered tooLate
          · exact congrArg Prod.snd processed
          · refine ⟨(run.operator.processElement arrival.record arrival.nowMs).1, ?_, ?_⟩
            · rw [processed]
            · simp only [step, verdict, processed]
      | false =>
          have timely : DedupeAndLateness.isTooLate { run.operator with
              seen := run.operator.seen.insert arrival.record.eventId
                (arrival.record.eventTimeMs, arrival.nowMs) } arrival.record = false := tooLate
          have processed := DedupeAndLateness.processElement.eq_1 run.operator arrival.record
            arrival.nowMs
          simp only [remembered, Bool.false_eq_true, if_false, timely] at processed
          apply Judged.accepted remembered tooLate
          · simp only [verdict, processed]
          · refine ⟨(run.operator.processElement arrival.record arrival.nowMs).1, ?_, ?_⟩
            · rw [processed]
            · simp only [step, verdict, processed]

theorem Remembering.step (remembering : run.Remembering) (arrival : Arrival)
    (allowed : run.Allowed arrival) : (run.step arrival).Remembering := by
  have forward := Int64.le_iff_toInt_le.mp allowed
  cases run.step_judged arrival with
  | duplicate _ _ step =>
      rw [step]
      refine ⟨?_, remembering.known, remembering.unknown⟩
      intro recording member
      exact Int.le_trans (remembering.past recording member) forward
  | late _ _ _ _ step =>
      obtain ⟨operator, seen, same⟩ := step
      rw [same]
      exact remembering.record _ _ _ forward operator seen _
  | accepted _ _ _ step =>
      obtain ⟨operator, seen, same⟩ := step
      rw [same]
      exact remembering.record _ _ _ forward operator seen _

theorem Remembering.accepted_iff (remembering : run.Remembering) (arrival : Arrival) :
    (∃ record, run.verdict arrival = .accepted record) ↔
      ¬ (run.Recent arrival ∨ run.operator.isTooLate arrival.record = true) := by
  rw [← remembering.contains_iff arrival]
  cases run.step_judged arrival with
  | duplicate remembered verdict =>
      rw [verdict, remembered]
      simp
  | late event forgotten tooLate verdict =>
      rw [verdict, tooLate]
      simp
  | accepted forgotten timely verdict =>
      rw [verdict, forgotten, timely]
      simp

theorem accepted_step (run : DedupeRun) (arrival : Arrival) :
    (run.step arrival).accepted = run.accepted ∨
      (run.step arrival).accepted = run.accepted ++ [arrival.record.eventId] ∧
        ∃ record, run.verdict arrival = .accepted record := by
  cases run.step_judged arrival with
  | duplicate _ _ step => exact Or.inl ((congrArg DedupeRun.accepted step).trans rfl)
  | late _ _ _ _ step =>
      obtain ⟨operator, -, same⟩ := step
      exact Or.inl ((congrArg DedupeRun.accepted same).trans rfl)
  | accepted _ _ verdict step =>
      obtain ⟨operator, -, same⟩ := step
      exact Or.inr ⟨congrArg DedupeRun.accepted same, _, verdict⟩

theorem accepted_grows (run : DedupeRun) (arrivals : List Arrival) :
    run.accepted <+: (Runs.run step run arrivals).accepted := by
  induction arrivals generalizing run with
  | nil => exact List.prefix_rfl
  | cons arrival arrivals ih =>
      have first : run.accepted <+: (run.step arrival).accepted := by
        rcases run.accepted_step arrival with same | ⟨longer, -⟩
        · rw [same]
        · rw [longer]
          exact List.prefix_append _ _
      exact first.trans (ih (run.step arrival))

theorem nodup_iff (remembering : run.Remembering) (distinct : run.accepted.Nodup)
    (arrivals : List Arrival) (allowed : Runs.Meets step Allowed run arrivals) :
    (Runs.run step run arrivals).accepted.Nodup ↔ Runs.Meets step Covered run arrivals := by
  induction arrivals generalizing run with
  | nil => exact iff_of_true distinct trivial
  | cons arrival arrivals ih =>
      have next := remembering.step arrival allowed.1
      by_cases covered : run.Covered arrival
      · have nextDistinct : (run.step arrival).accepted.Nodup := by
          rcases run.accepted_step arrival with same | ⟨longer, accepted⟩
          · rw [same]
            exact distinct
          · have fresh : arrival.record.eventId ∉ run.accepted :=
              fun again => (remembering.accepted_iff arrival).mp accepted (covered again)
            rw [longer]
            exact List.nodup_append.mpr ⟨distinct, List.nodup_singleton _, fun id member other
              single same => fresh (List.mem_singleton.mp single ▸ same ▸ member)⟩
        have rest := ih next nextDistinct allowed.2
        exact rest.trans (and_iff_right covered).symm
      · refine iff_of_false ?_ (fun meets => covered meets.1)
        intro nodup
        rw [Covered, Classical.not_imp] at covered
        obtain ⟨again, uncovered⟩ := covered
        obtain ⟨record, accepted⟩ := (remembering.accepted_iff arrival).mpr uncovered
        have repeated := nodup.sublist ((run.step arrival).accepted_grows arrivals).sublist
        cases run.step_judged arrival with
        | duplicate _ verdict => exact nomatch verdict.symm.trans accepted
        | late _ _ _ verdict => exact nomatch verdict.symm.trans accepted
        | accepted _ _ _ step =>
            obtain ⟨operator, -, same⟩ := step
            rw [same] at repeated
            exact List.disjoint_of_nodup_append repeated again (List.mem_singleton_self _)

theorem start_remembering (latenessMs longestHorizonMs : Int64) :
    (start latenessMs longestHorizonMs).Remembering where
  past := by
    intro recording none
    cases none
  known := by
    intro eventId entry none
    cases none
  unknown := by
    intro eventId _ recording none
    cases none

end DedupeRun

/-- A copy of an accepted event is dropped or too late exactly if its ID was recorded less than the
retention ago, or its event time is further behind the device clock than the lateness; no ID is
accepted twice exactly if this holds of every copy. -/
theorem accepted_once_iff (latenessMs longestHorizonMs : Int64) (arrivals : List Arrival)
    (allowed : Runs.Meets DedupeRun.step DedupeRun.Allowed (.start latenessMs longestHorizonMs)
      arrivals) :
    ((Runs.run DedupeRun.step (.start latenessMs longestHorizonMs) arrivals).accepted.Nodup ↔
      Runs.Meets DedupeRun.step DedupeRun.Covered (.start latenessMs longestHorizonMs) arrivals) ∧
    ∀ arrival, arrival.record.eventId ∈
        (Runs.run DedupeRun.step (.start latenessMs longestHorizonMs) arrivals).accepted →
      (((Runs.run DedupeRun.step (.start latenessMs longestHorizonMs) arrivals).verdict arrival =
          .duplicate ∨
        ∃ event, (Runs.run DedupeRun.step (.start latenessMs longestHorizonMs) arrivals).verdict
          arrival = .late event) ↔
      (Runs.run DedupeRun.step (.start latenessMs longestHorizonMs) arrivals).Covered arrival) := by
  have begun := DedupeRun.start_remembering latenessMs longestHorizonMs
  refine ⟨DedupeRun.nodup_iff begun List.nodup_nil arrivals allowed, ?_⟩
  have preserves : ∀ (run : DedupeRun) (arrival : Arrival), run.Remembering →
      run.Allowed arrival → (run.step arrival).Remembering :=
    fun _ arrival remembering enabled => remembering.step arrival enabled
  have remembering := Runs.run_invariant preserves begun allowed
  generalize Runs.run DedupeRun.step _ arrivals = run at *
  intro arrival again
  have accepted := remembering.accepted_iff arrival
  rw [DedupeRun.Covered, imp_iff_right again, ← not_iff_not, ← accepted]
  cases run.verdict arrival with
  | duplicate => simp
  | late event => simp
  | accepted record => simp

def replayed (nowMs : Int64) : Arrival := ⟨DeviceWindows.probe 1000 22, nowMs⟩

theorem accepted_once_iff_resent :
    ((Runs.run DedupeRun.step (.start 30000 900000) [replayed 0]).verdict (replayed 929999) =
      .duplicate) ∧
    ((Runs.run DedupeRun.step (.start 30000 900000) [replayed 0]).accepted.Nodup ↔
      Runs.Meets DedupeRun.step DedupeRun.Covered (.start 30000 900000) [replayed 0]) ∧
    ∀ arrival, arrival.record.eventId ∈
        (Runs.run DedupeRun.step (.start 30000 900000) [replayed 0]).accepted →
      (((Runs.run DedupeRun.step (.start 30000 900000) [replayed 0]).verdict arrival =
          .duplicate ∨
        ∃ event, (Runs.run DedupeRun.step (.start 30000 900000) [replayed 0]).verdict
          arrival = .late event) ↔
      (Runs.run DedupeRun.step (.start 30000 900000) [replayed 0]).Covered arrival) :=
  ⟨by decide, accepted_once_iff 30000 900000 [replayed 0] (by decide)⟩

/-- The ID is forgotten after 930 s, and the clock of a silent device does not move. -/
theorem silent_replay_accepted_twice :
    Runs.Meets DedupeRun.step DedupeRun.Allowed (.start 30000 900000)
        [replayed 0, replayed 930000] ∧
      ¬ (Runs.run DedupeRun.step (.start 30000 900000)
        [replayed 0, replayed 930000]).accepted.Nodup := by
  decide

end PiAgents.Detection
