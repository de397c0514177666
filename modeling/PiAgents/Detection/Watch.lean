import PiAgents.Detection.Draining
import PiAgents.Detection.Schedules

/-! Runs of the pipeline on the wall clock: in every state the timers are registered, and what is held
ages with them. -/

namespace PiAgents.Detection

namespace PipelineEvent

def isRecord : PipelineEvent → Bool
  | .record _ _ => true
  | _ => false

def isViewsTimer : PipelineEvent → Bool
  | .viewsTimer _ _ => true
  | _ => false

def isRuleTimer : PipelineEvent → Bool
  | .ruleTimer _ _ => true
  | _ => false

/-- The times of an event are far from a wrap, and the deserializer has let the record through. -/
def Near (event : PipelineEvent) : Prop :=
  event.nowMs < farMs ∧ match event with
    | .record flow _ => 0 < flow.eventTimeMs ∧ flow.eventTimeMs < farMs
    | _ => True

instance (event : PipelineEvent) : Decidable event.Near :=
  match event with
  | .record flow nowMs => inferInstanceAs (Decidable (nowMs < farMs ∧ 0 < flow.eventTimeMs ∧ _))
  | .viewsTimer _ nowMs => inferInstanceAs (Decidable (nowMs < farMs ∧ True))
  | .deliver nowMs => inferInstanceAs (Decidable (nowMs < farMs ∧ True))
  | .ruleTimer _ nowMs => inferInstanceAs (Decidable (nowMs < farMs ∧ True))

end PipelineEvent

/-- A run of the pipeline on the wall clock, with the windows reached last, the view sets sent and
the transitions emitted. -/
structure Watch where
  pipeline : Pipeline
  wallMs : Int64
  reached : Option DeviceWindows
  sent : List ViewSet
  emitted : List Transition

namespace Watch

def start (rule : PortScanRule) (shortMs longMs : Int64) (key : String) : Watch :=
  ⟨.new rule shortMs longMs key, 0, none, [], []⟩

def views (run : Watch) : RollingViews := run.pipeline.views

def detector (run : Watch) : PortScanDetector := run.pipeline.detector

def reaches (run : Watch) : PipelineEvent → Option DeviceWindows
  | .record flow _ => some (run.views.current.add flow)
  | .viewsTimer timestamp _ => (run.views.ticked timestamp).map Prod.fst
  | _ => run.reached

def sets (run : Watch) : PipelineEvent → List ViewSet
  | .record flow nowMs => (run.views.processElement flow nowMs).2
  | .viewsTimer timestamp _ => (run.views.fire timestamp).2
  | _ => []

def step (run : Watch) (event : PipelineEvent) : Watch where
  pipeline := (run.pipeline.step event).1
  wallMs := event.nowMs
  reached := run.reaches event
  sent := run.sent ++ run.sets event
  emitted := run.emitted ++ (run.pipeline.step event).2

/-- Processing time does not decrease, the pipeline can take the step, and no time is far. -/
def Allowed (run : Watch) (event : PipelineEvent) : Prop :=
  run.wallMs ≤ event.nowMs ∧ run.pipeline.Enabled event ∧ event.Near

instance (run : Watch) (event : PipelineEvent) : Decidable (run.Allowed event) :=
  inferInstanceAs (Decidable (_ ∧ _))

/-- No further record arrives. -/
def Silent (run : Watch) (event : PipelineEvent) : Prop :=
  run.Allowed event ∧ event.isRecord = false

instance (run : Watch) (event : PipelineEvent) : Decidable (run.Silent event) :=
  inferInstanceAs (Decidable (_ ∧ _))

end Watch

/-- A state shows the views of a set. -/
def RuleState.Shows (s : RuleState) (set : ViewSet) : Prop :=
  ∃ short long, set.views = [short, long] ∧ s.shortView = some short ∧ s.longView = some long

namespace Watch

def emissions (run : Watch) : Emissions := ⟨run.views, run.reached, run.sent⟩

/-- What holds in every reachable state. -/
structure Sound (rule : PortScanRule) (shortMs longMs : Int64) (key : String) (run : Watch) :
    Prop where
  wall : 0 ≤ run.wallMs.toInt ∧ run.wallMs < farMs
  same : run.detector.rule = rule
  current : Emissions.Current [shortMs, longMs] key run.emissions
  viewsArmed : run.views.Armed
  viewsAging : run.views.Aging run.wallMs
  ruleArmed : run.detector.Armed
  ruleAging : run.detector.Aging run.wallMs
  sent : ∀ set ∈ run.sent, (∃ short long, set.views = [short, long]) ∧
    0 < set.windowEndMs.toInt ∧ set.windowEndMs.toInt < 4611686018427387904
  flight : run.pipeline.channel <:+ run.sent
  shown : ∀ s ∈ run.detector.state, ∃ front set, run.sent = front ++ set :: run.pipeline.channel ∧
    s.Shows set

theorem start_sound (rule : PortScanRule) (shortMs longMs : Int64) (key : String) :
    (start rule shortMs longMs key).Sound rule shortMs longMs key where
  wall := show 0 ≤ (0 : Int64).toInt ∧ 0 < farMs by decide
  same := rfl
  current := by
    refine ⟨rfl, rfl, ?_, by simp [emissions, start], ?_, ?_⟩
    · intro before set after split
      exact absurd split (by simp [emissions, start])
    · intro w none
      cases none
    · exact fun _ => ⟨rfl, fun last none => by cases none⟩
  viewsArmed := ⟨rfl, rfl⟩
  viewsAging := .cleared rfl rfl
  ruleArmed := ⟨rfl, by simp [start, detector, Pipeline.new, PortScanDetector.new]⟩
  ruleAging := by
    refine ⟨?_, ?_, ?_, ?_⟩ <;> simp [start, detector, Pipeline.new, PortScanDetector.new]
  sent := by simp [start]
  flight := List.suffix_refl _
  shown := by simp [start, detector, Pipeline.new, PortScanDetector.new]

/-- What is sent in a step is a view set of both horizons, at a device clock within reach. -/
def Reports (run : Watch) (event : PipelineEvent) : Prop :=
  ∀ set ∈ run.sets event, (∃ short long, set.views = [short, long]) ∧
    0 < set.windowEndMs.toInt ∧ set.windowEndMs.toInt < 4611686018427387904

theorem pair_of_lengths {w : DeviceWindows} {shortMs longMs : Int64}
    (lengths : w.horizons.map Horizon.lengthMs = [shortMs, longMs]) (key : String) :
    ∃ short long, w.views key = [short, long] := by
  have two := views_length w key shortMs longMs lengths
  exact List.length_eq_two.mp two

variable {rule : PortScanRule} {shortMs longMs : Int64} {key : String} {run : Watch}

theorem Sound.sends (sound : run.Sound rule shortMs longMs key) {event : PipelineEvent}
    (allowed : run.Allowed event)
    (channel : (run.step event).pipeline.channel = run.pipeline.channel ++ run.sets event)
    (same : (run.step event).detector = run.detector) (reports : run.Reports event)
    (current : Emissions.Current [shortMs, longMs] key (run.step event).emissions)
    (armed : (run.step event).views.Armed) (aging : (run.step event).views.Aging event.nowMs) :
    (run.step event).Sound rule shortMs longMs key := by
  have order := Int64.le_iff_toInt_le.mp allowed.1
  have sent : (run.step event).sent = run.sent ++ run.sets event := rfl
  constructor
  · exact ⟨Int.le_trans sound.wall.1 order, allowed.2.2.1⟩
  · rw [same]
    exact sound.same
  · exact current
  · exact armed
  · exact aging
  · rw [same]
    exact sound.ruleArmed
  · rw [same]
    exact sound.ruleAging.later order
  · intro set member
    exact (List.mem_append.mp member).elim (sound.sent set) (reports set)
  · rcases sound.flight with ⟨front, split⟩
    refine ⟨front, ?_⟩
    rw [channel, sent, ← split, List.append_assoc]
  · rw [same, channel, sent]
    intro s held
    rcases sound.shown s held with ⟨front, set, split, shows⟩
    refine ⟨front, set, ?_, shows⟩
    rw [split, List.append_assoc, List.cons_append]

theorem Sound.record (sound : run.Sound rule shortMs longMs key)
    (positive : ∀ length ∈ [shortMs, longMs], 0 < length) (flow : FlowRecord) (nowMs : Int64)
    (allowed : run.Allowed (.record flow nowMs)) :
    (run.step (.record flow nowMs)).Sound rule shortMs longMs key := by
  rcases allowed.2.2 with ⟨now, early, near⟩
  have current := Emissions.step_record sound.current (List.cons_ne_nil _ _) positive flow nowMs early
  have aging := sound.viewsAging.process flow allowed.1 sound.wall.1 now early near
  refine sound.sends allowed rfl rfl ?_ current (sound.viewsArmed.process flow nowMs) aging
  intro set member
  change set ∈ (run.views.processElement flow nowMs).2 at member
  rw [RollingViews.processElement_sent] at member
  split at member
  · rw [List.mem_singleton.mp member]
    refine ⟨pair_of_lengths (current.held _ rfl).2.1 _, ?_⟩
    cases aging with
    | cleared none lastWall => cases none
    | holding w lastWallMs timerMs windows lastWall pending covering near clock walls timer =>
        cases windows
        exact clock
  · cases member

theorem Sound.viewsTimer (sound : run.Sound rule shortMs longMs key) (timestamp nowMs : Int64)
    (positive : ∀ length ∈ [shortMs, longMs], 0 < length)
    (allowed : run.Allowed (.viewsTimer timestamp nowMs)) :
    (run.step (.viewsTimer timestamp nowMs)).Sound rule shortMs longMs key ∧
      (run.step (.viewsTimer timestamp nowMs)).views.ticksLeft
          (max shortMs.toInt longMs.toInt) + 1 ≤
        run.views.ticksLeft (max shortMs.toInt longMs.toInt) := by
  rcases allowed.2 with ⟨⟨due, reached⟩, now, _⟩
  rcases sound.viewsArmed.due due with ⟨_, w, windows⟩
  have held := sound.current.held w windows
  have full : ∀ v ∈ run.views.windows, v.isEmpty = false :=
    fun v isHeld => (sound.current.held v isHeld).2.2.1
  have lengths : ∀ v ∈ run.views.windows, ∀ h ∈ v.horizons,
      0 < h.lengthMs ∧ h.lengthMs.toInt ≤ max shortMs.toInt longMs.toInt := by
    intro v isHeld h member
    have known : h.lengthMs ∈ [shortMs, longMs] := by
      rw [← (sound.current.held v isHeld).2.1]
      exact List.mem_map_of_mem member
    refine ⟨positive _ known, ?_⟩
    rcases List.mem_cons.mp known with isShort | isLong
    · rw [isShort]
      exact Int.le_max_left _ _
    · rw [List.mem_singleton.mp isLong]
      exact Int.le_max_right _ _
  have fired := sound.viewsAging.fire sound.viewsArmed due reached now full lengths
  refine ⟨?_, fired.2⟩
  have current := Emissions.step_timer sound.current timestamp nowMs
  refine sound.sends allowed rfl rfl ?_ current (sound.viewsArmed.fire due) fired.1
  intro set member
  change set ∈ (run.views.fire timestamp).2 at member
  rw [run.views.fire_sent timestamp w windows] at member
  split at member
  · rw [List.mem_singleton.mp member]
    have reads := sound.viewsAging.reads sound.viewsArmed due reached now windows (full w windows)
    have lengths' := (w.advance_lengths (run.views.silentClock w timestamp)).trans held.2.1
    exact ⟨pair_of_lengths lengths' _, reads.2.2.2.1⟩
  · cases member

theorem Sound.rules (sound : run.Sound rule shortMs longMs key) {event : PipelineEvent}
    (allowed : run.Allowed event) (views : (run.step event).views = run.views)
    (reached : (run.step event).reached = run.reached) (sent : (run.step event).sent = run.sent)
    (same : (run.step event).detector.rule = run.detector.rule)
    (armed : (run.step event).detector.Armed)
    (aging : (run.step event).detector.Aging event.nowMs)
    (flight : (run.step event).pipeline.channel <:+ run.pipeline.channel)
    (shown : ∀ s ∈ (run.step event).detector.state, ∃ front set,
      run.sent = front ++ set :: (run.step event).pipeline.channel ∧ s.Shows set) :
    (run.step event).Sound rule shortMs longMs key := by
  have order := Int64.le_iff_toInt_le.mp allowed.1
  constructor
  · exact ⟨Int.le_trans sound.wall.1 order, allowed.2.2.1⟩
  · exact same.trans sound.same
  · rw [emissions, views, reached, sent]
    exact sound.current
  · rw [views]
    exact sound.viewsArmed
  · rw [views]
    exact sound.viewsAging.later allowed.1
  · exact armed
  · exact aging
  · rw [sent]
    exact sound.sent
  · rw [sent]
    exact flight.trans sound.flight
  · rw [sent]
    exact shown

theorem shows_evaluate {s : RuleState} {set : ViewSet} (shows : s.Shows set) (rule : PortScanRule)
    (clockMs ingestMs nowMs : Int64) :
    (rule.evaluate s clockMs ingestMs nowMs).1.Shows set := by
  rcases shows with ⟨short, long, pair, isShort, isLong⟩
  have keeps := rule.evaluate_keeps s clockMs ingestMs nowMs
  exact ⟨short, long, pair, keeps.1.trans isShort, keeps.2.1.trans isLong⟩

theorem shows_finish {d : PortScanDetector} {u : RuleState} {atMs : Int64} {set : ViewSet}
    (shows : u.Shows set) {s : RuleState} (held : (d.finish u atMs).state = some s) :
    s.Shows set := by
  rcases d.finish_state u atMs with none | stored
  · rw [none] at held
    cases held
  · rw [stored] at held
    cases held
    exact shows

theorem Sound.deliver (sound : run.Sound rule shortMs longMs key) (bounded : rule.config.Bounded)
    (nowMs : Int64) (allowed : run.Allowed (.deliver nowMs)) :
    (run.step (.deliver nowMs)).Sound rule shortMs longMs key := by
  have order := Int64.le_iff_toInt_le.mp allowed.1
  cases flight : run.pipeline.channel with
  | nil => exact absurd flight allowed.2.1
  | cons set rest =>
      have stepped : (run.pipeline.step (.deliver nowMs)).1 = { run.pipeline with
          detector := (run.detector.processElement set nowMs).1, channel := rest } := by
        simp only [Pipeline.step, flight]
        rfl
      have member : set ∈ run.sent := by
        apply sound.flight.subset
        rw [flight]
        exact List.mem_cons_self
      have facts := sound.sent set member
      have known : run.detector.rule.config.Bounded := by
        rw [sound.same]
        exact bounded
      have aging := sound.ruleAging.process sound.ruleArmed known set facts.1 facts.2 sound.wall.1
        order allowed.2.2.1
      have channel : (run.step (.deliver nowMs)).pipeline.channel = rest :=
        congrArg Pipeline.channel stepped
      have detector : (run.step (.deliver nowMs)).detector =
          (run.detector.processElement set nowMs).1 := congrArg Pipeline.detector stepped
      apply sound.rules allowed
      · exact (congrArg Pipeline.views stepped).trans rfl
      · rfl
      · exact List.append_nil _
      · rw [detector]
        exact run.detector.finish_rule _ nowMs
      · rw [detector]
        exact sound.ruleArmed.process set nowMs
      · rw [detector]
        exact aging
      · rw [channel, flight]
        exact List.suffix_cons set rest
      · rw [detector, channel]
        intro s held
        rcases sound.flight with ⟨front, split⟩
        refine ⟨front, set, ?_, ?_⟩
        · rw [← split, flight]
        · apply shows_finish (shows_evaluate ?_ _ _ _ _) held
          rcases facts.1 with ⟨short, long, pair⟩
          refine ⟨short, long, pair, ?_⟩
          rw [received_pair _ set nowMs short long pair]
          exact ⟨rfl, rfl⟩

theorem Sound.ruleTimer (sound : run.Sound rule shortMs longMs key) (bounded : rule.config.Bounded)
    (timestamp nowMs : Int64) (allowed : run.Allowed (.ruleTimer timestamp nowMs)) :
    (run.step (.ruleTimer timestamp nowMs)).Sound rule shortMs longMs key := by
  have order := Int64.le_iff_toInt_le.mp allowed.1
  rcases allowed.2 with ⟨⟨due, reached⟩, now, _⟩
  rw [Int64.le_iff_toInt_le] at reached
  have known : run.detector.rule.config.Bounded := by
    rw [sound.same]
    exact bounded
  refine sound.rules allowed rfl rfl (List.append_nil _) (run.detector.fire_rule timestamp)
    (sound.ruleArmed.fire due)
    (sound.ruleAging.fire sound.ruleArmed known due reached order now) (List.suffix_refl _) ?_
  intro s held
  rcases sound.ruleArmed.due due with ⟨_, u, isHeld, _⟩
  rcases sound.shown u isHeld with ⟨front, set, split, shows⟩
  refine ⟨front, set, split, ?_⟩
  change (run.detector.fire timestamp).1.state = some s at held
  rw [PortScanDetector.fire_eq sound.ruleArmed due isHeld,
    PortScanDetector.onClock_eq sound.ruleAging isHeld] at held
  exact shows_finish (shows_evaluate shows _ _ _ _) held

theorem step_sound (bounded : rule.config.Bounded)
    (positive : ∀ length ∈ [shortMs, longMs], 0 < length) (run : Watch) (event : PipelineEvent)
    (sound : run.Sound rule shortMs longMs key) (allowed : run.Allowed event) :
    (run.step event).Sound rule shortMs longMs key := by
  cases event with
  | record flow nowMs => exact sound.record positive flow nowMs allowed
  | viewsTimer timestamp nowMs => exact (sound.viewsTimer timestamp nowMs positive allowed).1
  | deliver nowMs => exact sound.deliver bounded nowMs allowed
  | ruleTimer timestamp nowMs => exact sound.ruleTimer bounded timestamp nowMs allowed

end Watch

end PiAgents.Detection
