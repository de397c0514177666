import PiAgents.Detection.DetectorRun

/-! A crossing within the cooldown after a resolve: it reopens the incident as long as the detector
still holds the state of the incident and its clock is not past the cooldown. -/

namespace PiAgents.Detection

namespace DetectorRun

variable (run : DetectorRun)

/-- The view set puts a horizon over its threshold within the cooldown of the device's latest
incident, whose last transition resolved it. -/
def CrossesInCooldown (set : ViewSet) (nowMs : Int64) (last : Transition) : Prop :=
  last.status = .resolve ∧ run.detector.rule.overMask (run.viewed set nowMs) ≠ 0 ∧
    set.windowEndMs.toInt <
      last.evidenceEventTimeMs.toInt + run.detector.rule.config.cooldownMs.toInt

instance (set : ViewSet) (nowMs : Int64) (last : Transition) :
    Decidable (run.CrossesInCooldown set nowMs last) :=
  inferInstanceAs (Decidable (_ ∧ _ ∧ _))

def Continues (last t : Transition) : Prop :=
  t.status = .reopen ∧ t.incidentId = last.incidentId ∧ t.revision = last.revision + 1

def Reopens : DetectorEvent → Prop
  | .views set nowMs => ∀ last ∈ run.emitted.getLast?, run.CrossesInCooldown set nowMs last →
      ∃ t, (run.call (.views set nowMs)).2 = [t] ∧ Continues last t
  | .timer _ _ => True

/-- The crossing finds the state of the resolved incident, and a clock within the cooldown. -/
def Retains : DetectorEvent → Prop
  | .views set nowMs => ∀ last ∈ run.emitted.getLast?, run.CrossesInCooldown set nowMs last →
      ∃ s ∈ run.detector.state, s.status = .resolved ∧
        (run.viewed set nowMs).clockMs - last.evidenceEventTimeMs <
          run.detector.rule.config.cooldownMs
  | .timer _ _ => True

end DetectorRun

/-- What the emitted transitions say of a state that is held. -/
structure Held (s : RuleState) (emitted : List Transition) : Prop where
  resolved : s.status = .resolved → ∃ last, emitted.getLast? = some last ∧
    last.incidentId = s.incidentId ∧ last.revision = s.revision ∧
    last.evidenceEventTimeMs = s.resolvedAtMs
  active : s.status = .active → ∀ last ∈ emitted.getLast?, last.status ≠ .resolve

namespace Held

variable {s : RuleState} {emitted : List Transition}

theorem new : Held .new emitted := ⟨RuleStatus.noConfusion, RuleStatus.noConfusion⟩

theorem received (held : Held s emitted) (set : ViewSet) (nowMs : Int64) :
    Held (PortScanRule.received s set nowMs) emitted := by
  obtain ⟨short, long, clockMs, clockWallMs, -, fields⟩ :=
    PortScanRule.received_fields s set nowMs
  rw [fields]
  exact ⟨held.resolved, held.active⟩

theorem running (s : RuleState) (active : s.status = .active) (emitted : List Transition)
    (t : Transition) (status : t.status ≠ .resolve) : Held s (emitted ++ [t]) where
  resolved now := by
    rw [active] at now
    cases now
  active _ last isLast := by
    rw [List.getLast?_concat, Option.mem_some_iff] at isLast
    exact isLast ▸ status

theorem evaluate (held : Held s emitted) (rule : PortScanRule) (clockMs ingestMs nowMs : Int64) :
    Held (rule.evaluate s clockMs ingestMs nowMs).1
      (emitted ++ (rule.evaluate s clockMs ingestMs nowMs).2) := by
  by_cases active : s.status = .active
  · by_cases settled : rule.Settled s clockMs
    · rw [rule.evaluate_resolve s _ _ _ active settled]
      exact ⟨fun _ => ⟨_, List.getLast?_concat, rfl, rfl, rfl⟩, RuleStatus.noConfusion⟩
    · by_cases changed : rule.Changed s
      · rw [rule.evaluate_update s _ _ _ active settled changed]
        apply running
        · exact active
        · exact TransitionStatus.noConfusion
      · rw [rule.evaluate_unchanged s _ _ _ active settled changed, List.append_nil]
        exact ⟨held.resolved, held.active⟩
  · by_cases quiet : rule.overMask s = 0
    · rw [rule.evaluate_quiet s _ _ _ active quiet, List.append_nil]
      exact held
    · by_cases cooling : rule.Cooling s clockMs
      · rw [rule.evaluate_reopen s _ _ _ quiet cooling]
        apply running
        · rfl
        · exact TransitionStatus.noConfusion
      · rw [rule.evaluate_open s _ _ _ active quiet cooling]
        apply running
        · rfl
        · exact TransitionStatus.noConfusion

end Held

namespace DetectorRun

def Knows (run : DetectorRun) : Prop := ∀ s ∈ run.detector.state, Held s run.emitted

variable (run : DetectorRun)

theorem Knows.viewed {run : DetectorRun} (knows : run.Knows) (set : ViewSet) (nowMs : Int64) :
    Held (run.viewed set nowMs) run.emitted := by
  apply Held.received
  cases held : run.detector.state with
  | none => exact Held.new
  | some s => exact knows s held

theorem Knows.evaluated {run : DetectorRun} (knows : run.Knows) (event : DetectorEvent)
    (s : RuleState) (clockMs : Int64) (on : run.evaluated event = some (s, clockMs)) :
    Held s run.emitted := by
  cases event with
  | views set nowMs =>
      obtain ⟨rfl, -⟩ := Prod.mk.inj (Option.some.inj on)
      exact knows.viewed set nowMs
  | timer timestamp nowMs =>
      cases held : run.detector.state with
      | none =>
          simp only [DetectorRun.evaluated, held] at on
          cases on
      | some kept =>
          simp only [DetectorRun.evaluated, held] at on
          split at on
          · cases on
          · obtain ⟨rfl, -⟩ := Prod.mk.inj (Option.some.inj on)
            exact knows kept held

theorem step_knows (knows : run.Knows) (event : DetectorEvent) : (run.step event).Knows := by
  intro s isState
  cases run.step_evaluates event with
  | once u clockMs ingestMs nowMs on emits leaves =>
      rcases leaves with dropped | stored
      · rw [dropped] at isState
        cases isState
      · rw [stored, Option.mem_some_iff] at isState
        rw [emits, ← isState]
        exact (knows.evaluated event u clockMs on).evaluate _ _ _ _
  | never on emits leaves =>
      rw [emits]
      rcases leaves with dropped | stored
      · rw [dropped] at isState
        cases isState
      · exact knows s (stored ▸ isState)

theorem viewed_status (set : ViewSet) (nowMs : Int64) :
    (run.viewed set nowMs).status = (run.detector.state.getD .new).status ∧
      (run.viewed set nowMs).incidentId = (run.detector.state.getD .new).incidentId ∧
      (run.viewed set nowMs).revision = (run.detector.state.getD .new).revision ∧
      (run.viewed set nowMs).resolvedAtMs = (run.detector.state.getD .new).resolvedAtMs := by
  obtain ⟨short, long, clockMs, clockWallMs, -, fields⟩ :=
    PortScanRule.received_fields (run.detector.state.getD .new) set nowMs
  rw [viewed, fields]
  exact ⟨rfl, rfl, rfl, rfl⟩

theorem reopens_iff (knows : run.Knows) (event : DetectorEvent) :
    run.Reopens event ↔ run.Retains event := by
  cases event with
  | timer timestamp nowMs => exact Iff.rfl
  | views set nowMs =>
      apply forall_congr'
      intro last
      apply forall_congr'
      intro isLast
      apply imp_congr_right
      rintro ⟨resolved, mask, -⟩
      have called : (run.call (.views set nowMs)).2 =
          (run.detector.rule.evaluate (run.viewed set nowMs) (run.viewed set nowMs).clockMs
            set.ingest nowMs).2 := rfl
      obtain ⟨status, incidentId, revision, resolvedAt⟩ := run.viewed_status set nowMs
      have held := knows.viewed set nowMs
      have inactive : (run.viewed set nowMs).status ≠ .active :=
        fun active => held.active active last isLast resolved
      rw [called]
      by_cases cooling :
          run.detector.rule.Cooling (run.viewed set nowMs) (run.viewed set nowMs).clockMs
      · rw [run.detector.rule.evaluate_reopen _ _ _ _ mask cooling]
        obtain ⟨known, isKnown, sameId, sameRevision, sameTime⟩ := held.resolved cooling.1
        have same : known = last := Option.some.inj (isKnown.symm.trans isLast)
        rw [same] at sameId sameRevision sameTime
        refine iff_of_true ⟨_, rfl, rfl, sameId.symm, congrArg (· + 1) sameRevision.symm⟩ ?_
        cases stored : run.detector.state with
        | none =>
            have fresh := cooling.1
            rw [status, stored] at fresh
            cases fresh
        | some s =>
            have isResolved := cooling.1
            rw [status, stored] at isResolved
            refine ⟨s, rfl, isResolved, ?_⟩
            rw [sameTime]
            exact cooling.2
      · rw [run.detector.rule.evaluate_open _ _ _ _ inactive mask cooling]
        apply iff_of_false
        · rintro ⟨t, only, reopen, -⟩
          rw [← (List.cons.inj only).1] at reopen
          cases reopen
        · rintro ⟨s, stored, isResolved, within⟩
          have stored : run.detector.state = some s := stored
          have now : (run.viewed set nowMs).status = .resolved := by
            rw [status, stored]
            exact isResolved
          obtain ⟨known, isKnown, -, -, sameTime⟩ := held.resolved now
          have same : known = last := Option.some.inj (isKnown.symm.trans isLast)
          rw [same] at sameTime
          exact cooling ⟨now, sameTime ▸ within⟩

end DetectorRun

/-- In a run of the detector every crossing within the cooldown reopens the incident, exactly if
each one finds the state of the incident and a clock within the cooldown. -/
theorem crossings_reopen_iff (rule : PortScanRule) (events : List DetectorEvent) :
    Runs.Meets DetectorRun.step DetectorRun.Reopens (.start rule) events ↔
      Runs.Meets DetectorRun.step DetectorRun.Retains (.start rule) events := by
  have fresh : (DetectorRun.start rule).Knows := by
    intro s none
    cases none
  exact Runs.meets_congr (fun run event knows => run.step_knows knows event)
    (fun run event knows => run.reopens_iff knows event) fresh events

/-- A scan is resolved, and its state dropped, while a view set of it is delayed. -/
def delayedScan : List DetectorEvent :=
  [briefViews 1000 20 1000, briefViews 2000 0 2000, .timer 6000 6000, .timer 11000 11000,
    briefViews 8000 20 12000]

set_option maxRecDepth 4096 in
theorem delayed_scan_opens_anew :
    Runs.Meets DetectorRun.step DetectorRun.Allowed (.start briefRule) delayedScan ∧
      ¬ Runs.Meets DetectorRun.step DetectorRun.Reopens (.start briefRule) delayedScan := by
  refine ⟨by decide, ?_⟩
  rintro ⟨-, -, -, -, reopens, -⟩
  have statuses : ((((Runs.run DetectorRun.step (.start briefRule) (delayedScan.take 4)).call
      (briefViews 8000 20 12000)).2.map Transition.status) = [.open]) := by decide
  have last : ∃ last, (Runs.run DetectorRun.step (.start briefRule)
      (delayedScan.take 4)).emitted.getLast? = some last ∧
      (Runs.run DetectorRun.step (.start briefRule) (delayedScan.take 4)).CrossesInCooldown
        ⟨probeKey, 8000, [probeView 60 8000 20, probeView 900 8000 20]⟩ 12000 last :=
    ⟨_, rfl, by decide⟩
  obtain ⟨last, isLast, crosses⟩ := last
  obtain ⟨t, only, reopen, -⟩ := reopens last isLast crosses
  have reported := congrArg (List.map Transition.status) only
  rw [List.map_singleton, reopen] at reported
  exact TransitionStatus.noConfusion (List.cons.inj (statuses.symm.trans reported)).1

end PiAgents.Detection
