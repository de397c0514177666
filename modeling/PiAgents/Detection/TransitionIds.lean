import PiAgents.Detection.DetectorRun

/-! Transition IDs over a run of the detector that drops its state: an ID comes twice exactly when
an incident starts at the device time at which an earlier one of the device started. -/

namespace PiAgents.Detection

def PortScanRule.Opens (rule : PortScanRule) (s : RuleState) (clockMs : Int64) : Prop :=
  s.status ≠ .active ∧ rule.overMask s ≠ 0 ∧ ¬ rule.Cooling s clockMs

instance (rule : PortScanRule) (s : RuleState) (clockMs : Int64) :
    Decidable (rule.Opens s clockMs) := inferInstanceAs (Decidable (_ ∧ _ ∧ _))

/-- No incident of the device starts at a device time at which one started before. -/
def DetectorRun.StartsAfresh (run : DetectorRun) (event : DetectorEvent) : Prop :=
  ∀ on ∈ run.evaluated event, run.detector.rule.Opens on.1 on.2 →
    ∀ t ∈ run.emitted, t.status = .open → t.deviceKey = on.1.deviceKey → t.episodeStartMs ≠ on.2

instance (run : DetectorRun) (event : DetectorEvent) : Decidable (run.StartsAfresh event) :=
  @Option.decidableForallMem _ _ (fun _ => inferInstance) _

/-- The emitted transitions as blocks, each one begun by an OPEN with revision 1. -/
structure Ledger (rule : PortScanRule) (episodes : List Episode) : Prop where
  numbered : ∀ e ∈ episodes, e.Numbered rule
  opens : ∀ e ∈ episodes, ∀ t ∈ e.transitions, t.status = .open →
    t.deviceKey = e.deviceKey ∧ t.revision = 1
  begun : ∀ e ∈ episodes, ∃ t ∈ e.transitions, t.status = .open
  differ : episodes.Pairwise fun earlier later =>
    ¬ (earlier.deviceKey = later.deviceKey ∧ earlier.startMs = later.startMs)

/-- A state that has an incident has the one of the last block. -/
structure Books (rule : PortScanRule) (s : RuleState) (earlier : List Episode) (last : Episode) :
    Prop where
  incidentId : s.incidentId = rule.incidentId last.deviceKey last.startMs
  episodeStart : s.episodeStartMs = last.startMs
  revision : s.revision = last.transitions.length

def Booked (rule : PortScanRule) (s : RuleState) (episodes : List Episode) : Prop :=
  s.status ≠ .none → ∃ earlier last, episodes = earlier ++ [last] ∧ Books rule s earlier last

namespace Ledger

variable {rule : PortScanRule} {earlier : List Episode} {last : Episode}

theorem extend (ledger : Ledger rule (earlier ++ [last])) (t : Transition)
    (incidentId : t.incidentId = rule.incidentId last.deviceKey last.startMs)
    (start : t.episodeStartMs = last.startMs) (revision : t.revision = last.transitions.length + 1)
    (status : t.status ≠ .open) : Ledger rule (earlier ++ [last.extend t]) := by
  have isLast : last ∈ earlier ++ [last] := List.mem_append_right _ (List.mem_singleton_self _)
  constructor
  · intro e member
    rcases List.mem_append.mp member with old | new
    · exact ledger.numbered e (List.mem_append_left _ old)
    · rw [List.mem_singleton.mp new]
      exact (ledger.numbered last isLast).extend incidentId start revision
  · intro e member other held isOpen
    rcases List.mem_append.mp member with old | new
    · exact ledger.opens e (List.mem_append_left _ old) other held isOpen
    · rw [List.mem_singleton.mp new] at held ⊢
      rcases List.mem_append.mp held with before | added
      · exact ledger.opens last isLast other before isOpen
      · rw [List.mem_singleton.mp added] at isOpen
        exact absurd isOpen status
  · intro e member
    rcases List.mem_append.mp member with old | new
    · exact ledger.begun e (List.mem_append_left _ old)
    · obtain ⟨first, held, isOpen⟩ := ledger.begun last isLast
      rw [List.mem_singleton.mp new]
      exact ⟨first, List.mem_append_left _ held, isOpen⟩
  · have differ := ledger.differ
    rw [List.pairwise_append] at differ ⊢
    refine ⟨differ.1, List.pairwise_singleton _ _, ?_⟩
    intro e member other single
    rw [List.mem_singleton.mp single]
    exact differ.2.2 e member last (List.mem_singleton_self _)

theorem begin {episodes : List Episode} (ledger : Ledger rule episodes) (t : Transition)
    (incidentId : t.incidentId = rule.incidentId t.deviceKey t.episodeStartMs)
    (revision : t.revision = 1) (status : t.status = .open)
    (fresh : ∀ e ∈ episodes, ¬ (e.deviceKey = t.deviceKey ∧ e.startMs = t.episodeStartMs)) :
    Ledger rule (episodes ++ [⟨t.deviceKey, t.episodeStartMs, [t]⟩]) := by
  constructor
  · intro e member
    rcases List.mem_append.mp member with old | new
    · exact ledger.numbered e old
    · rw [List.mem_singleton.mp new]
      refine ⟨congrArg (fun revision => [revision]) revision, ?_⟩
      intro other held
      rw [List.mem_singleton.mp held]
      exact ⟨incidentId, rfl⟩
  · intro e member other held isOpen
    rcases List.mem_append.mp member with old | new
    · exact ledger.opens e old other held isOpen
    · rw [List.mem_singleton.mp new] at held ⊢
      rw [List.mem_singleton.mp held]
      exact ⟨rfl, revision⟩
  · intro e member
    rcases List.mem_append.mp member with old | new
    · exact ledger.begun e old
    · rw [List.mem_singleton.mp new]
      exact ⟨t, List.mem_singleton_self _, status⟩
  · rw [List.pairwise_append]
    refine ⟨ledger.differ, List.pairwise_singleton _ _, ?_⟩
    intro e member other single
    rw [List.mem_singleton.mp single]
    exact fresh e member

theorem started {episodes : List Episode} (ledger : Ledger rule episodes) (e : Episode)
    (member : e ∈ episodes) : ∃ t ∈ episodes.flatMap Episode.transitions, t.status = .open ∧
      t.deviceKey = e.deviceKey ∧ t.episodeStartMs = e.startMs := by
  obtain ⟨t, held, isOpen⟩ := ledger.begun e member
  refine ⟨t, List.mem_flatMap.mpr ⟨e, member, held⟩, isOpen, ?_, ?_⟩
  · exact (ledger.opens e member t held isOpen).1
  · exact ((ledger.numbered e member).same t held).2

theorem open_id {episodes : List Episode} (ledger : Ledger rule episodes) (t : Transition)
    (member : t ∈ episodes.flatMap Episode.transitions) (isOpen : t.status = .open) :
    t.transitionId = rule.incidentId t.deviceKey t.episodeStartMs ++ ":" ++ toString 1 := by
  obtain ⟨e, isEpisode, held⟩ := List.mem_flatMap.mp member
  obtain ⟨key, revision⟩ := ledger.opens e isEpisode t held isOpen
  rw [(ledger.numbered e isEpisode).mem_id held, revision, key,
    ((ledger.numbered e isEpisode).same t held).2]

end Ledger

section evaluate

variable {rule : PortScanRule} {s : RuleState} {episodes : List Episode}

theorem Booked.received (booked : Booked rule s episodes) (set : ViewSet) (nowMs : Int64) :
    Booked rule (PortScanRule.received s set nowMs) episodes := by
  obtain ⟨short, long, clockMs, clockWallMs, -, fields⟩ :=
    PortScanRule.received_fields s set nowMs
  rw [fields]
  intro known
  obtain ⟨earlier, last, split, books⟩ := booked known
  exact ⟨earlier, last, split, books.incidentId, books.episodeStart, books.revision⟩

theorem Ledger.continue {earlier : List Episode} {last : Episode}
    (ledger : Ledger rule (earlier ++ [last])) (books : Books rule s earlier last) (u : RuleState)
    (status : TransitionStatus) (further : status ≠ .open) (clockMs ingestMs nowMs : Int64)
    (incidentId : u.incidentId = s.incidentId) (start : u.episodeStartMs = s.episodeStartMs)
    (revision : u.revision = s.revision + 1) :
    ∃ longer, Ledger rule longer ∧ Booked rule u longer ∧
      longer.flatMap Episode.transitions = (earlier ++ [last]).flatMap Episode.transitions ++
        [rule.transition u status clockMs ingestMs nowMs] := by
  have length : (last.extend (rule.transition u status clockMs ingestMs nowMs)).transitions.length =
      last.transitions.length + 1 := List.length_append
  refine ⟨_, ledger.extend (rule.transition u status clockMs ingestMs nowMs)
    (incidentId.trans books.incidentId) (start.trans books.episodeStart)
    (revision.trans (congrArg (· + 1) books.revision)) further, ?_, flatMap_extend _ _ _⟩
  intro _
  refine ⟨earlier, _, rfl, incidentId.trans books.incidentId, start.trans books.episodeStart, ?_⟩
  rw [length, revision, books.revision]

theorem Ledger.evaluate (ledger : Ledger rule episodes) (booked : Booked rule s episodes)
    (clockMs ingestMs nowMs : Int64)
    (fresh : rule.Opens s clockMs → ∀ e ∈ episodes,
      ¬ (e.deviceKey = s.deviceKey ∧ e.startMs = clockMs)) :
    ∃ longer, Ledger rule longer ∧ Booked rule (rule.evaluate s clockMs ingestMs nowMs).1 longer ∧
      longer.flatMap Episode.transitions = episodes.flatMap Episode.transitions ++
        (rule.evaluate s clockMs ingestMs nowMs).2 := by
  by_cases active : s.status = .active
  · obtain ⟨earlier, last, rfl, books⟩ := booked (by rw [active]; exact RuleStatus.noConfusion)
    by_cases settled : rule.Settled s clockMs
    · rw [rule.evaluate_resolve s _ _ _ active settled]
      exact ledger.continue books _ _ TransitionStatus.noConfusion _ _ _ rfl rfl rfl
    · by_cases changed : rule.Changed s
      · rw [rule.evaluate_update s _ _ _ active settled changed]
        exact ledger.continue books _ _ TransitionStatus.noConfusion _ _ _ rfl rfl rfl
      · rw [rule.evaluate_unchanged s _ _ _ active settled changed]
        refine ⟨_, ledger, ?_, (List.append_nil _).symm⟩
        exact fun _ => ⟨earlier, last, rfl, books.incidentId, books.episodeStart, books.revision⟩
  · by_cases quiet : rule.overMask s = 0
    · rw [rule.evaluate_quiet s _ _ _ active quiet]
      exact ⟨_, ledger, booked, (List.append_nil _).symm⟩
    · by_cases cooling : rule.Cooling s clockMs
      · rw [rule.evaluate_reopen s _ _ _ quiet cooling]
        obtain ⟨earlier, last, rfl, books⟩ :=
          booked (by rw [cooling.1]; exact RuleStatus.noConfusion)
        exact ledger.continue books _ _ TransitionStatus.noConfusion _ _ _ rfl rfl rfl
      · rw [rule.evaluate_open s _ _ _ active quiet cooling]
        have begun := ledger.begin
          (rule.transition (rule.opened s clockMs) .open clockMs ingestMs nowMs) rfl rfl rfl
          (fresh ⟨active, quiet, cooling⟩)
        refine ⟨_, begun, fun _ => ⟨episodes, _, rfl, rfl, rfl, rfl⟩, ?_⟩
        rw [List.flatMap_append, List.flatMap_singleton]

end evaluate

namespace DetectorRun

/-- The blocks of a run whose incidents all started at different device times. -/
def Accounted (run : DetectorRun) : Prop :=
  ∃ episodes, Ledger run.detector.rule episodes ∧
    (∀ s ∈ run.detector.state, Booked run.detector.rule s episodes) ∧
    episodes.flatMap Episode.transitions = run.emitted

theorem Accounted.evaluated {run : DetectorRun} {episodes : List Episode}
    (booked : ∀ s ∈ run.detector.state, Booked run.detector.rule s episodes)
    (event : DetectorEvent) (s : RuleState) (clockMs : Int64)
    (on : run.evaluated event = some (s, clockMs)) : Booked run.detector.rule s episodes := by
  cases event with
  | views set nowMs =>
      obtain ⟨rfl, -⟩ := Prod.mk.inj (Option.some.inj on)
      apply Booked.received
      cases held : run.detector.state with
      | none => exact fun known => absurd rfl known
      | some s => exact booked s held
  | timer timestamp nowMs =>
      cases held : run.detector.state with
      | none =>
          simp only [DetectorRun.evaluated, held] at on
          cases on
      | some kept =>
          simp only [DetectorRun.evaluated, held] at on
          split at on
          · cases on
          · obtain ⟨rfl, -⟩ := Prod.mk.inj (Option.some.inj on)
            exact booked kept held

theorem Accounted.step {run : DetectorRun} (accounted : run.Accounted) (event : DetectorEvent)
    (afresh : run.StartsAfresh event) : (run.step event).Accounted := by
  obtain ⟨episodes, ledger, booked, all⟩ := accounted
  have rule := run.step_rule event
  cases run.step_evaluates event with
  | once s clockMs ingestMs nowMs on emits leaves =>
      have fresh : run.detector.rule.Opens s clockMs → ∀ e ∈ episodes,
          ¬ (e.deviceKey = s.deviceKey ∧ e.startMs = clockMs) := by
        rintro opens e member ⟨key, start⟩
        obtain ⟨t, emitted, isOpen, sameKey, sameStart⟩ := ledger.started e member
        rw [all] at emitted
        exact afresh (s, clockMs) on opens t emitted isOpen (sameKey.trans key)
          (sameStart.trans start)
      obtain ⟨longer, next, nextBooked, flat⟩ := ledger.evaluate
        (Accounted.evaluated booked event s clockMs on) clockMs ingestMs nowMs fresh
      refine ⟨longer, ?_, ?_, ?_⟩
      · rw [rule]
        exact next
      · intro u isState
        rw [rule]
        rcases leaves with dropped | stored
        · rw [dropped] at isState
          cases isState
        · rw [stored, Option.mem_some_iff] at isState
          exact isState ▸ nextBooked
      · rw [flat, all, emits]
  | never on emits leaves =>
      refine ⟨episodes, ?_, ?_, ?_⟩
      · rw [rule]
        exact ledger
      · intro u isState
        rw [rule]
        rcases leaves with dropped | stored
        · rw [dropped] at isState
          cases isState
        · exact booked u (stored ▸ isState)
      · rw [emits, all]

/-- An incident that starts where an earlier one did repeats its ID. -/
theorem Accounted.repeats {run : DetectorRun} (accounted : run.Accounted) (event : DetectorEvent)
    (again : ¬ run.StartsAfresh event) :
    ¬ ((run.step event).emitted.map Transition.transitionId).Nodup := by
  obtain ⟨episodes, ledger, -, all⟩ := accounted
  simp only [StartsAfresh, not_forall, not_not] at again
  obtain ⟨⟨s, clockMs⟩, on, opens, t, emitted, isOpen, key, start⟩ := again
  cases run.step_evaluates event with
  | never none => exact absurd (none.symm.trans on) nofun
  | once u otherMs ingestMs nowMs onToo emits =>
      obtain ⟨rfl, rfl⟩ := Prod.mk.inj (Option.some.inj (onToo.symm.trans on))
      rw [run.detector.rule.evaluate_open _ _ _ _ opens.1 opens.2.1 opens.2.2] at emits
      have id := ledger.open_id t (all.symm ▸ emitted) isOpen
      rw [emits, List.map_append]
      intro nodup
      apply List.disjoint_of_nodup_append nodup (List.mem_map_of_mem emitted)
      rw [id, key, start]
      exact List.mem_singleton_self _

theorem emitted_grows (run : DetectorRun) (events : List DetectorEvent) :
    run.emitted <+: (Runs.run step run events).emitted := by
  induction events generalizing run with
  | nil => exact List.prefix_rfl
  | cons event events ih =>
      have first : run.emitted <+: (run.step event).emitted := List.prefix_append _ _
      exact first.trans (ih (run.step event))

end DetectorRun

/-- In a run of the detector no transition ID comes twice exactly if no incident starts at the
device time at which an earlier one of the device started. -/
theorem transition_ids_distinct_iff (rule : PortScanRule)
    (distinct : Function.Injective2 rule.incidentId) (events : List DetectorEvent) :
    ((Runs.run DetectorRun.step (.start rule) events).emitted.map Transition.transitionId).Nodup ↔
      Runs.Meets DetectorRun.step DetectorRun.StartsAfresh (.start rule) events := by
  have accounted : (DetectorRun.start rule).Accounted := by
    refine ⟨[], ?_, ?_, rfl⟩
    · constructor <;> simp
    · intro s none
      cases none
  have ruled : (DetectorRun.start rule).detector.rule = rule := rfl
  generalize DetectorRun.start rule = run at *
  induction events generalizing run with
  | nil =>
      obtain ⟨episodes, ledger, -, all⟩ := accounted
      rw [ruled] at ledger
      refine iff_of_true ?_ trivial
      rw [Runs.run_nil, ← all]
      exact episodes_nodup ledger.numbered ledger.differ distinct
  | cons event events ih =>
      by_cases afresh : run.StartsAfresh event
      · have rest := ih (run.step event) (accounted.step event afresh)
          ((run.step_rule event).trans ruled)
        exact rest.trans (and_iff_right afresh).symm
      · refine iff_of_false ?_ (fun meets => afresh meets.1)
        intro nodup
        have ids := ((run.step event).emitted_grows events).map Transition.transitionId
        exact accounted.repeats event afresh (nodup.sublist ids.sublist)

def twoScans : List DetectorEvent :=
  [briefViews 1000 20 1000, briefViews 2000 0 2000, .timer 6000 6000, .timer 11000 11000,
    briefViews 500000 20 500000]

theorem transition_ids_distinct_two_scans :
    (((Runs.run DetectorRun.step (.start briefRule) twoScans).emitted.map Transition.status =
        [.open, .update, .resolve, .open]) ∧
      (Runs.run DetectorRun.step (.start briefRule) (twoScans.take 4)).detector.state = none) ∧
    (((Runs.run DetectorRun.step (.start briefRule) twoScans).emitted.map
        Transition.transitionId).Nodup ↔
      Runs.Meets DetectorRun.step DetectorRun.StartsAfresh (.start briefRule) twoScans) :=
  ⟨by decide, transition_ids_distinct_iff briefRule
    (briefRule.incidentId_injective probe_digest_injective) twoScans⟩

/-- The window clock restarts lower once the views are cleared, and comes to the same time. -/
def scanAgain : List DetectorEvent :=
  [briefViews 1000 20 1000, briefViews 2000 0 2000, .timer 6000 6000, .timer 11000 11000,
    briefViews 1000 20 12000]

set_option maxRecDepth 4096 in
theorem scan_again_repeats_id :
    Runs.Meets DetectorRun.step DetectorRun.Allowed (.start briefRule) scanAgain ∧
      ¬ ((Runs.run DetectorRun.step (.start briefRule) scanAgain).emitted.map
        Transition.transitionId).Nodup := by
  decide

end PiAgents.Detection
