import PiAgents.Detection.RunRule
import PiAgents.Detection.RunViews

/-! Two processing-time schedules of the same records: the transitions of an undisturbed run are
those of its replay, so that two runs which come past the same turns report the same incidents. -/

namespace PiAgents.Detection

/-- Both operators of the run beside the replay, from the position that the rule has come to. -/
structure Faithful (rule : PortScanRule) (shortMs longMs : Int64) (key : String)
    (run : PipelineRun) (here : Position) : Prop where
  ruled : run.rule = rule
  channel : run.pipeline.channel = run.flight.filterMap Parcel.set?
  carries : Carries key here run.flight
  replay : (Runs.run Position.pass here run.flight).windows = run.replay
  viewsSide : ViewsSide shortMs longMs key run.views run.reachedMs
    (Runs.run Position.pass here run.flight)
  ruleSide : RuleSide rule key (.start shortMs longMs) run.pipeline.detector.state run.kept
    run.emitted run.turns here

theorem RollingViews.sent_head (s : RollingViews) (flow : FlowRecord) (nowMs : Int64) :
    (s.processElement flow nowMs).2 =
      [Parcel.record flow (s.processElement flow nowMs).2.head?].filterMap Parcel.set? := by
  rw [s.processElement_sent]
  split
  · rfl
  · rfl

theorem tick_sets (sets : List ViewSet) :
    (sets.map Parcel.tick).filterMap Parcel.set? = sets := by
  rw [List.filterMap_map]
  exact List.filterMap_some

theorem skip_head (flight : List Parcel) (set : ViewSet) (channel : List ViewSet)
    (sets : (skip flight).2.filterMap Parcel.set? = set :: channel) :
    ∃ parcel rest, (skip flight).2 = parcel :: rest ∧ parcel.set? = some set ∧
      rest.filterMap Parcel.set? = channel := by
  induction flight with
  | nil => cases sets
  | cons parcel flight ih =>
      match parcel with
      | .record flow none => exact ih sets
      | .record flow (some sent) =>
          obtain ⟨head, tail⟩ := List.cons.inj sets
          exact ⟨.record flow (some sent), flight, rfl, congrArg some head, tail⟩
      | .tick sent =>
          obtain ⟨head, tail⟩ := List.cons.inj sets
          exact ⟨.tick sent, flight, rfl, congrArg some head, tail⟩

namespace Faithful

variable {rule : PortScanRule} {shortMs longMs : Int64} {key : String} {run : PipelineRun}
  {here : Position}

theorem record (faithful : Faithful rule shortMs longMs key run here)
    (positiveShort : 0 < shortMs) (positiveLong : 0 < longMs) (flow : FlowRecord) (nowMs : Int64)
    (undisturbed : run.Undisturbed (.record flow nowMs)) :
    Faithful rule shortMs longMs key (run.step (.record flow nowMs)) here := by
  obtain ⟨positive, newer⟩ := undisturbed
  rw [← faithful.replay] at newer
  obtain ⟨fits, viewsSide⟩ := faithful.viewsSide.record positiveShort positiveLong flow nowMs
    positive newer
  have passed := Runs.run_append Position.pass here run.flight
    [.record flow (run.views.processElement flow nowMs).2.head?]
  have replay := faithful.replay
  constructor
  · exact faithful.ruled
  · have sent := run.views.sent_head flow nowMs
    have channel : (run.step (.record flow nowMs)).pipeline.channel =
        run.pipeline.channel ++ (run.views.processElement flow nowMs).2 := rfl
    have flight : (run.step (.record flow nowMs)).flight =
        run.flight ++ [.record flow (run.views.processElement flow nowMs).2.head?] := rfl
    rw [channel, flight, List.filterMap_append, faithful.channel, ← sent]
  · exact Runs.meets_append.mpr ⟨faithful.carries, fits, trivial⟩
  · have windows : (run.step (.record flow nowMs)).replay =
        (Runs.run Position.pass here run.flight).windows.add flow := by
      rw [replay]
      rfl
    rw [windows]
    refine (congrArg Position.windows passed).trans ?_
    rw [Runs.run_cons, Runs.run_nil]
    cases (run.views.processElement flow nowMs).2.head? with
    | none => rfl
    | some set => rfl
  · rw [← Runs.run_nil Position.pass (Position.pass _ _), ← Runs.run_cons, ← passed] at viewsSide
    exact viewsSide
  · have emitted : (run.step (.record flow nowMs)).emitted = run.emitted := List.append_nil _
    rw [emitted]
    exact faithful.ruleSide

theorem viewsTimer (faithful : Faithful rule shortMs longMs key run here)
    (timestamp nowMs : Int64) :
    Faithful rule shortMs longMs key (run.step (.viewsTimer timestamp nowMs)) here := by
  obtain ⟨fits, viewsSide⟩ := faithful.viewsSide.timer timestamp
  have passed := Runs.run_append Position.pass here run.flight
    ((run.views.fire timestamp).2.map .tick)
  have still : ∀ (sets : List ViewSet) (p : Position),
      (Runs.run Position.pass p (sets.map .tick)).windows = p.windows := by
    intro sets
    induction sets with
    | nil => exact fun _ => rfl
    | cons set sets ih => exact fun p => ih (p.pass (.tick set))
  rw [← passed] at viewsSide
  constructor
  · exact faithful.ruled
  · have channel : (run.step (.viewsTimer timestamp nowMs)).pipeline.channel =
        run.pipeline.channel ++ (run.views.fire timestamp).2 := rfl
    have flight : (run.step (.viewsTimer timestamp nowMs)).flight =
        run.flight ++ (run.views.fire timestamp).2.map .tick := rfl
    rw [channel, flight, List.filterMap_append, faithful.channel, tick_sets]
  · exact Runs.meets_append.mpr ⟨faithful.carries, fits⟩
  · refine (congrArg Position.windows passed).trans ?_
    rw [still]
    exact faithful.replay
  · exact viewsSide
  · have emitted : (run.step (.viewsTimer timestamp nowMs)).emitted = run.emitted :=
      List.append_nil _
    rw [emitted]
    exact faithful.ruleSide

theorem deliver (faithful : Faithful rule shortMs longMs key run here)
    (valid : rule.config.Valid) (nowMs : Int64) (undisturbed : run.Undisturbed (.deliver nowMs)) :
    ∃ next, Faithful rule shortMs longMs key (run.step (.deliver nowMs)) next := by
  have ruled : run.pipeline.detector.rule = rule := faithful.ruled
  obtain ⟨next, ruleSide, carries, last, sets⟩ :=
    faithful.ruleSide.skip_through run.flight faithful.carries
  cases waiting : run.pipeline.channel with
  | nil =>
      have still : run.step (.deliver nowMs) = { run with wallMs := nowMs } := by
        simp only [PipelineRun.step, Pipeline.step, waiting, List.append_nil]
        rfl
      rw [still]
      exact ⟨here, faithful.ruled, faithful.channel, faithful.carries, faithful.replay,
        faithful.viewsSide, faithful.ruleSide⟩
  | cons set channel =>
      rw [← faithful.channel, waiting] at sets
      obtain ⟨parcel, rest, first, carried, tail⟩ := skip_head run.flight set channel sets
      rw [first] at carries last
      have remembers : rule.Remembers run.pipeline.detector.state run.kept set := by
        have here := undisturbed set (by rw [waiting]; rfl)
        rw [faithful.ruled] at here
        exact here
      have taken : run.step (.deliver nowMs) = { run with
          pipeline := { run.pipeline with
            detector := (run.pipeline.detector.processElement set nowMs).1
            channel }
          wallMs := nowMs
          emitted := run.emitted ++ (run.pipeline.detector.processElement set nowMs).2
          flight := rest
          kept := (run.rule.onViews run.kept set nowMs).1
          turns := run.story ++
            turnOf run.rule (PortScanRule.received run.kept set nowMs) parcel } := by
        simp only [PipelineRun.step, Pipeline.step, waiting, first]
        rfl
      rw [taken]
      refine ⟨next.pass parcel, ?_⟩
      constructor
      · exact (PortScanDetector.finish_rule _ _ _).trans ruled
      · exact tail.symm
      · exact carries.2
      · rw [← faithful.replay, ← last]
        rfl
      · have viewsSide := faithful.viewsSide
        rw [← last] at viewsSide
        exact viewsSide
      · have delivered := ruleSide.delivered valid parcel set carried carries.1 nowMs
          run.pipeline.detector ruled rfl remembers
        rw [faithful.ruled]
        exact delivered

theorem ruleTimer (faithful : Faithful rule shortMs longMs key run here)
    (valid : rule.config.Valid) (timestamp nowMs : Int64) :
    Faithful rule shortMs longMs key (run.step (.ruleTimer timestamp nowMs)) here := by
  have ruled : run.pipeline.detector.rule = rule := faithful.ruled
  constructor
  · exact (run.pipeline.detector.fire_rule timestamp).trans ruled
  · exact faithful.channel
  · exact faithful.carries
  · exact faithful.replay
  · exact faithful.viewsSide
  · have fired := faithful.ruleSide.fired valid timestamp run.pipeline.detector ruled rfl
    rw [← faithful.ruled] at fired ⊢
    exact fired

theorem step (faithful : Faithful rule shortMs longMs key run here) (valid : rule.config.Valid)
    (positiveShort : 0 < shortMs) (positiveLong : 0 < longMs) (event : PipelineEvent)
    (undisturbed : run.Undisturbed event) :
    ∃ next, Faithful rule shortMs longMs key (run.step event) next := by
  cases event with
  | record flow nowMs =>
      exact ⟨here, faithful.record positiveShort positiveLong flow nowMs undisturbed⟩
  | viewsTimer timestamp nowMs => exact ⟨here, faithful.viewsTimer timestamp nowMs⟩
  | deliver nowMs => exact faithful.deliver valid nowMs undisturbed
  | ruleTimer timestamp nowMs => exact ⟨here, faithful.ruleTimer valid timestamp nowMs⟩

theorem start (rule : PortScanRule) (valid : rule.config.Valid) (shortMs longMs : Int64)
    (key : String) : Faithful rule shortMs longMs key (.start rule shortMs longMs key)
      ⟨.new [shortMs, longMs], [], Int64.minValue⟩ where
  ruled := rfl
  channel := rfl
  carries := trivial
  replay := rfl
  viewsSide := .start
  ruleSide := .start rule valid key shortMs longMs

theorem contents (faithful : Faithful rule shortMs longMs key run here) :
    run.emitted.map Transition.content =
      ((Replay.start shortMs longMs).turns rule key run.story).2 := by
  obtain ⟨next, ruleSide, -⟩ := faithful.ruleSide.skip_through run.flight faithful.carries
  exact ruleSide.contents

end Faithful

theorem Content.transitionId_eq (t : Transition) :
    t.transitionId = t.content.incidentId ++ ":" ++ toString t.content.revision := rfl

theorem faithful_run (rule : PortScanRule) (valid : rule.config.Valid) (shortMs longMs : Int64)
    (positiveShort : 0 < shortMs) (positiveLong : 0 < longMs) (key : String)
    (events : List PipelineEvent) (undisturbed : Runs.Meets PipelineRun.step
      PipelineRun.Undisturbed (.start rule shortMs longMs key) events) :
    ∃ here, Faithful rule shortMs longMs key
      (Runs.run PipelineRun.step (.start rule shortMs longMs key) events) here := by
  have preserves : ∀ (run : PipelineRun) event,
      (∃ here, Faithful rule shortMs longMs key run here) → run.Undisturbed event →
        ∃ next, Faithful rule shortMs longMs key (run.step event) next := by
    rintro run event ⟨here, faithful⟩ calm
    exact faithful.step valid positiveShort positiveLong event calm
  exact Runs.run_invariant preserves ⟨_, Faithful.start rule valid shortMs longMs key⟩ undisturbed

theorem faithful_nodup {rule : PortScanRule} {shortMs longMs : Int64} {key : String}
    {run : PipelineRun} {here : Position} (faithful : Faithful rule shortMs longMs key run here)
    (distinct : Function.Injective2 rule.incidentId) :
    (run.emitted.map Transition.transitionId).Nodup := by
  obtain ⟨episodes, told, all⟩ := faithful.ruleSide.told
  have ids := told.incidents.ids_nodup distinct
  rw [all] at ids
  exact ids

instance (rule : PortScanRule) (state : Option RuleState) (u : RuleState) (set : ViewSet) :
    Decidable (rule.Remembers state u set) :=
  match state with
  | none => inferInstanceAs (Decidable (_ ∧ _))
  | some _ => inferInstanceAs (Decidable (_ → _))

instance (run : PipelineRun) (event : PipelineEvent) : Decidable (run.Undisturbed event) :=
  match event with
  | .record _ _ => inferInstanceAs (Decidable (_ ∧ _))
  | .viewsTimer _ _ => inferInstanceAs (Decidable True)
  | .deliver _ => @Option.decidableForallMem _ _ (fun _ => inferInstance) _
  | .ruleTimer _ _ => inferInstanceAs (Decidable True)

instance (p : Pipeline) (event : PipelineEvent) : Decidable (p.Enabled event) :=
  match event with
  | .record _ _ => inferInstanceAs (Decidable True)
  | .viewsTimer _ _ => inferInstanceAs (Decidable (_ ∧ _))
  | .deliver _ => inferInstanceAs (Decidable (_ ≠ _))
  | .ruleTimer _ _ => inferInstanceAs (Decidable (_ ∧ _))

instance (run : PipelineRun) (event : PipelineEvent) : Decidable (run.Allowed event) :=
  inferInstanceAs (Decidable (_ ∧ _))

def PipelineEvent.flow? : PipelineEvent → Option FlowRecord
  | .record flow _ => some flow
  | _ => none

/-- Two continuations of a checkpoint, one of which has come past the turns of the other, say the
same of a transition that both emit. -/
theorem transition_id_determines_content (rule : PortScanRule) (valid : rule.config.Valid)
    (distinct : Function.Injective2 rule.incidentId) (shortMs longMs : Int64)
    (positiveShort : 0 < shortMs) (positiveLong : 0 < longMs) (key : String)
    (checkpoint first second : List PipelineEvent)
    (firstCalm : Runs.Meets PipelineRun.step PipelineRun.Undisturbed
      (.start rule shortMs longMs key) (checkpoint ++ first))
    (secondCalm : Runs.Meets PipelineRun.step PipelineRun.Undisturbed
      (.start rule shortMs longMs key) (checkpoint ++ second))
    (story : (Runs.run PipelineRun.step (.start rule shortMs longMs key)
        (checkpoint ++ first)).story <+:
      (Runs.run PipelineRun.step (.start rule shortMs longMs key) (checkpoint ++ second)).story) :
    ∀ t ∈ (Runs.run PipelineRun.step (.start rule shortMs longMs key)
        (checkpoint ++ first)).emitted,
      ∀ u ∈ (Runs.run PipelineRun.step (.start rule shortMs longMs key)
          (checkpoint ++ second)).emitted,
        t.transitionId = u.transitionId →
          t.status = u.status ∧ t.severity = u.severity ∧ t.overThreshold = u.overThreshold := by
  obtain ⟨here, faithful⟩ := faithful_run rule valid shortMs longMs positiveShort positiveLong key
    _ firstCalm
  obtain ⟨there, other⟩ := faithful_run rule valid shortMs longMs positiveShort positiveLong key
    _ secondCalm
  generalize Runs.run PipelineRun.step _ (checkpoint ++ first) = run at *
  generalize Runs.run PipelineRun.step _ (checkpoint ++ second) = longer at *
  intro t member u otherMember sameId
  obtain ⟨rest, more⟩ := story
  have contents : ∃ later, longer.emitted.map Transition.content =
      run.emitted.map Transition.content ++ later := by
    rw [faithful.contents, other.contents, ← more, Replay.turns_append]
    exact ⟨_, rfl⟩
  obtain ⟨later, contents⟩ := contents
  have reported : t.content ∈ longer.emitted.map Transition.content := by
    rw [contents]
    exact List.mem_append_left later (List.mem_map_of_mem member)
  obtain ⟨again, againMember, same⟩ := List.mem_map.mp reported
  have againId : again.transitionId = u.transitionId := by
    rw [← sameId, Content.transitionId_eq, Content.transitionId_eq, same]
  have one : again = u :=
    List.inj_on_of_nodup_map (faithful_nodup other distinct) againMember otherMember againId
  rw [one] at same
  refine ⟨?_, ?_, ?_⟩
  · exact (congrArg Content.status same).symm
  · exact (congrArg Content.severity same).symm
  · exact (congrArg Content.overThreshold same).symm

/-- One failed target is over threshold, and an incident is resolved after three seconds. -/
def sweepConfig : Config := ⟨[60, 900], [1, 1], 0.5, 3000, 300000, 2, 4, by decide⟩

def sweepRule : PortScanRule := ⟨sweepConfig, probeDigest⟩

theorem sweep_valid : sweepConfig.Valid := by
  refine ⟨?_, by decide, by decide⟩
  intro threshold member
  rcases List.mem_cons.mp member with rfl | member
  · decide
  · rw [List.mem_singleton.mp member]
    decide

def sweepFlow (eventTimeMs : Int64) (remotePort outcome : Int32) : FlowRecord :=
  ⟨"gw/" ++ toString eventTimeMs, probeKey, eventTimeMs, eventTimeMs, "203.0.113.7", remotePort,
    6, outcome, 60, 0⟩

def sweepRun (events : List PipelineEvent) : PipelineRun :=
  Runs.run PipelineRun.step (.start sweepRule 60000 900000 probeKey) events

/-- A failed attempt. -/
def sweepBegun : List PipelineEvent := [.record (sweepFlow 1000 22 4) 10, .deliver 10]

/-- Its retry is answered, at once or after a timer has moved the device clock. -/
def retriedAtOnce : List PipelineEvent := [.record (sweepFlow 2500 22 1) 20, .deliver 20]

def retriedLater : List PipelineEvent :=
  [.viewsTimer 1010 1010, .record (sweepFlow 2500 22 1) 1600, .deliver 1601,
    .record (sweepFlow 6000 23 4) 4000, .deliver 4000]

theorem transition_id_determines_content_retried :
    ((sweepRun (sweepBegun ++ retriedAtOnce)).emitted.map Transition.status = [.open, .update] ∧
      (sweepRun (sweepBegun ++ retriedLater)).emitted.map Transition.status =
        [.open, .update, .update]) ∧
    ∀ t ∈ (sweepRun (sweepBegun ++ retriedAtOnce)).emitted,
      ∀ u ∈ (sweepRun (sweepBegun ++ retriedLater)).emitted, t.transitionId = u.transitionId →
        t.status = u.status ∧ t.severity = u.severity ∧ t.overThreshold = u.overThreshold :=
  ⟨by decide, transition_id_determines_content sweepRule sweep_valid
    (sweepRule.incidentId_injective probe_digest_injective) 60000 900000 (by decide) (by decide)
    probeKey sweepBegun retriedAtOnce retriedLater (by decide) (by decide) (by decide)⟩

/-- The incident was clear when the checkpoint was taken; the clock of the rule is not the clock
of the views. -/
def sweepCleared : List PipelineEvent :=
  sweepBegun ++ [.record (sweepFlow 1500 22 1) 20, .deliver 20, .viewsTimer 1020 1020]

def scannedBeforeTimer : List PipelineEvent := [.record (sweepFlow 6000 23 4) 5000, .deliver 5001]

def scannedAfterTimer : List PipelineEvent :=
  [.ruleTimer 5010 5010, .record (sweepFlow 6000 23 4) 5020, .deliver 5021]

/-- Revision 3 is an update over threshold, or the resolve of a timer that came first. -/
theorem timer_changes_a_revision :
    (Runs.Meets PipelineRun.step PipelineRun.Allowed (.start sweepRule 60000 900000 probeKey)
        (sweepCleared ++ scannedBeforeTimer) ∧
      Runs.Meets PipelineRun.step PipelineRun.Allowed (.start sweepRule 60000 900000 probeKey)
        (sweepCleared ++ scannedAfterTimer) ∧
      scannedBeforeTimer.filterMap PipelineEvent.flow? =
        scannedAfterTimer.filterMap PipelineEvent.flow?) ∧
    ¬ ∀ t ∈ (sweepRun (sweepCleared ++ scannedBeforeTimer)).emitted,
      ∀ u ∈ (sweepRun (sweepCleared ++ scannedAfterTimer)).emitted,
        t.transitionId = u.transitionId →
          t.status = u.status ∧ t.severity = u.severity ∧ t.overThreshold = u.overThreshold := by
  decide

def PipelineRun.opened (run : PipelineRun) : List String :=
  (run.emitted.filter fun t => t.status = .open).map Transition.incidentId

theorem opened_contents (emitted : List Transition) :
    (emitted.filter fun t => t.status = .open).map Transition.incidentId =
      ((emitted.map Transition.content).filter fun c => c.status = .open).map
        Content.incidentId := by
  rw [List.filter_map, List.map_map]
  rfl

/-- Two schedules that come past the same turns open the same incidents. -/
theorem schedules_open_same_incidents (rule : PortScanRule) (valid : rule.config.Valid)
    (shortMs longMs : Int64) (positiveShort : 0 < shortMs) (positiveLong : 0 < longMs)
    (key : String) (first second : List PipelineEvent)
    (firstCalm : Runs.Meets PipelineRun.step PipelineRun.Undisturbed
      (.start rule shortMs longMs key) first)
    (secondCalm : Runs.Meets PipelineRun.step PipelineRun.Undisturbed
      (.start rule shortMs longMs key) second)
    (story : (Runs.run PipelineRun.step (.start rule shortMs longMs key) first).story =
      (Runs.run PipelineRun.step (.start rule shortMs longMs key) second).story) :
    ∀ incidentId,
      incidentId ∈ (Runs.run PipelineRun.step (.start rule shortMs longMs key) first).opened ↔
        incidentId ∈
          (Runs.run PipelineRun.step (.start rule shortMs longMs key) second).opened := by
  obtain ⟨here, faithful⟩ := faithful_run rule valid shortMs longMs positiveShort positiveLong key
    _ firstCalm
  obtain ⟨there, other⟩ := faithful_run rule valid shortMs longMs positiveShort positiveLong key
    _ secondCalm
  intro incidentId
  rw [PipelineRun.opened, PipelineRun.opened, opened_contents, opened_contents,
    faithful.contents, other.contents, story]

theorem schedules_open_same_incidents_retried :
    ((sweepRun (sweepBegun ++ retriedLater)).opened = ["448a11ef6c62bed4533b416c1bea9772"] ∧
      (sweepRun (sweepBegun ++ retriedAtOnce ++ retriedLater.drop 3)).wallMs = 4000) ∧
    ∀ incidentId, incidentId ∈ (sweepRun (sweepBegun ++ retriedLater)).opened ↔ incidentId ∈
      (sweepRun (sweepBegun ++ retriedAtOnce ++ retriedLater.drop 3)).opened :=
  ⟨by decide, schedules_open_same_incidents sweepRule sweep_valid 60000 900000 (by decide)
    (by decide) probeKey (sweepBegun ++ retriedLater)
    (sweepBegun ++ retriedAtOnce ++ retriedLater.drop 3) (by decide) (by decide) (by decide)⟩

/-- The clock starts to run on from a record that was answered. -/
def liveAtOnce : List PipelineEvent :=
  [.record (sweepFlow 1000 22 2) 0, .deliver 0, .record (sweepFlow 1500 22 4) 900, .deliver 900]

def liveAfterTimer : List PipelineEvent :=
  [.record (sweepFlow 1000 22 2) 0, .deliver 0, .viewsTimer 1000 1000,
    .record (sweepFlow 1500 22 4) 1100, .deliver 1100]

/-- The episode starts at the clock of the device, which a timer may have moved. -/
theorem timer_changes_an_incident :
    (Runs.Meets PipelineRun.step PipelineRun.Allowed (.start sweepRule 60000 900000 probeKey)
        liveAtOnce ∧
      Runs.Meets PipelineRun.step PipelineRun.Allowed (.start sweepRule 60000 900000 probeKey)
        liveAfterTimer ∧
      liveAtOnce.filterMap PipelineEvent.flow? = liveAfterTimer.filterMap PipelineEvent.flow? ∧
      (sweepRun liveAtOnce).pipeline.channel = [] ∧
      (sweepRun liveAfterTimer).pipeline.channel = []) ∧
    ¬ ∀ incidentId,
      incidentId ∈ (sweepRun liveAtOnce).opened ↔
        incidentId ∈ (sweepRun liveAfterTimer).opened := by
  refine ⟨by decide, ?_⟩
  intro same
  have opened : probeRule.incidentId probeKey 1500 ∈ (sweepRun liveAtOnce).opened := by decide
  have elsewhere : probeRule.incidentId probeKey 1500 ∉ (sweepRun liveAfterTimer).opened := by
    decide
  exact elsewhere ((same _).mp opened)

end PiAgents.Detection
