import PiAgents.Detection.Closing
import PiAgents.Detection.DetectorRun

/-! How many timers `PortScanDetector` fires without evidence until it holds nothing, and what it
emits until then. -/

namespace PiAgents.Detection

namespace PortScanRule

/-- How often a timer fires until the state is dropped, at most: until it has caught up with the
views and the hold is over, and until the cooldown is over. -/
def firingsLeft (rule : PortScanRule) (s : RuleState) (timerMs : Int) : Nat :=
  let overdueMs := s.clockWallMs.toInt - timerMs
  let cooldownMs := rule.config.cooldownMs.toInt
  match s.status with
  | .none => 0
  | .active =>
    let holdMs := s.clearSinceMs.toInt + rule.config.holdMs.toInt - s.clockMs.toInt
    ((max overdueMs (overdueMs + holdMs)).toNat + 4999) / 5000 + (cooldownMs.toNat + 4999) / 5000 + 1
  | .resolved =>
    ((overdueMs + (s.resolvedAtMs.toInt + cooldownMs - s.clockMs.toInt)).toNat + 4999) / 5000 + 1

variable {rule : PortScanRule} {s : RuleState} {wallMs clockMs : Int64} {timerMs : Int}

theorem firingsLeft_pos (busy : s.status ≠ .none) : 1 ≤ rule.firingsLeft s timerMs := by
  cases status : s.status with
  | none => exact absurd status busy
  | active => simp [firingsLeft, status]
  | resolved => simp [firingsLeft, status]

theorem evaluate_silentClock (rule : PortScanRule) (s : RuleState)
    (clockMs ingestMs nowMs timestamp : Int64) :
    (rule.evaluate s clockMs ingestMs nowMs).1.silentClock timestamp = s.silentClock timestamp := by
  rw [rule.evaluate_eq]
  split
  · split
    · rfl
    · split
      · rfl
      · rfl
  · split
    · rfl
    · split
      · rfl
      · rfl

theorem evaluate_unsettled (active : s.status = .active) (unsettled : ¬ rule.Settled s clockMs)
    (ingestMs nowMs : Int64) : ∃ revision overMask severity,
      (rule.evaluate s clockMs ingestMs nowMs).1 =
        { s with revision, overMask, severity, clearSinceMs := rule.clearSince s clockMs } := by
  by_cases changed : rule.Changed s
  · rw [rule.evaluate_update s clockMs ingestMs nowMs active unsettled changed]
    exact ⟨_, _, _, rfl⟩
  · rw [rule.evaluate_unchanged s clockMs ingestMs nowMs active unsettled changed]
    exact ⟨s.revision, s.overMask, s.severity, rfl⟩

theorem evaluate_closes (active : s.status = .active) (clockMs ingestMs nowMs : Int64) :
    (∀ t ∈ (rule.evaluate s clockMs ingestMs nowMs).2, t.incidentId = s.incidentId) ∧
    ((rule.evaluate s clockMs ingestMs nowMs).1.status = .resolved ∧
        (rule.evaluate s clockMs ingestMs nowMs).2.map (·.status) = [.resolve] ∨
      (rule.evaluate s clockMs ingestMs nowMs).1.status = .active ∧
        ¬ rule.Changed (rule.evaluate s clockMs ingestMs nowMs).1 ∧
        (rule.evaluate s clockMs ingestMs nowMs).1.incidentId = s.incidentId ∧
        (rule.evaluate s clockMs ingestMs nowMs).2.map (·.status) =
          if rule.Changed s then [.update] else []) := by
  by_cases settled : rule.Settled s clockMs
  · rw [rule.evaluate_resolve s clockMs ingestMs nowMs active settled]
    refine ⟨?_, Or.inl ⟨rfl, rfl⟩⟩
    intro t member
    rw [List.mem_singleton.mp member]
    rfl
  · by_cases changed : rule.Changed s
    · rw [rule.evaluate_update s clockMs ingestMs nowMs active settled changed, if_pos changed]
      have same := rule.evidence_congr (s := rule.updated s clockMs) (u := s) rfl rfl
      refine ⟨?_, Or.inr ⟨active, ?_, rfl, rfl⟩⟩
      · intro t member
        rw [List.mem_singleton.mp member]
        rfl
      · rw [Changed, same.1, same.2.1]
        exact fun either => either.elim (fun mask => mask rfl) (fun severity => severity rfl)
    · rw [rule.evaluate_unchanged s clockMs ingestMs nowMs active settled changed, if_neg changed]
      have same := rule.evidence_congr (s := rule.kept s clockMs) (u := s) rfl rfl
      refine ⟨fun t member => (by cases member), Or.inr ⟨active, ?_, rfl, rfl⟩⟩
      rw [Changed, same.1, same.2.1]
      exact changed

theorem Spent.settled_iff (spent : rule.Spent s) (set : s.clearSinceMs ≠ Int64.minValue)
    (since : 0 < s.clearSinceMs.toInt) (clock : 0 < clockMs.toInt) :
    rule.clearSince s clockMs = s.clearSinceMs ∧ (rule.Settled s clockMs ↔
      rule.config.holdMs.toInt ≤ clockMs.toInt - s.clearSinceMs.toInt) := by
  have kept : rule.clearSince s clockMs = s.clearSinceMs := by
    rw [PortScanRule.clearSince, if_pos spent.clear, if_neg set]
  have high := clockMs.toInt_lt
  have far := s.clearSinceMs.toInt_lt
  refine ⟨kept, ?_⟩
  rw [Settled, kept, Int64.le_iff_toInt_le, Exact.sub _ _ (by omega) (by omega)]
  exact and_iff_right spent.clear

theorem Spent.lowers_active (spent : rule.Spent s) (aging : s.Aging wallMs) (marks : rule.Marks s)
    (active : s.status = .active)
    (clock : clockMs.toInt = s.clockMs.toInt + max 0 (timerMs - s.clockWallMs.toInt))
    (ingestMs nowMs : Int64) :
    rule.idle (rule.evaluate s clockMs ingestMs nowMs).1 clockMs = true ∨
      rule.firingsLeft (rule.evaluate s clockMs ingestMs nowMs).1 (timerMs + 5000) + 1 ≤
        rule.firingsLeft s timerMs := by
  have positive := aging.clock.1
  have set := marks active spent.clear
  have since := (aging.since active).resolve_left set
  have later : 0 < clockMs.toInt := by omega
  rcases spent.settled_iff set since.1 later with ⟨kept, settled⟩
  by_cases held : rule.Settled s clockMs
  · rw [rule.evaluate_resolve s clockMs ingestMs nowMs active held]
    by_cases cooled : rule.config.cooldownMs.toInt ≤ 0
    · left
      have zero : clockMs - clockMs = 0 := Int64.sub_self clockMs
      have over' : rule.config.cooldownMs ≤ 0 := Int64.le_iff_toInt_le.mpr cooled
      simp only [PortScanRule.idle, PortScanRule.resolved, zero, over', decide_true, Bool.and_true]
      exact spent.nothing
    · right
      simp only [firingsLeft, active, PortScanRule.resolved]
      omega
  · right
    rcases evaluate_unsettled active held ingestMs nowMs with ⟨revision, mask, severity, after⟩
    rw [settled] at held
    rw [after]
    simp only [firingsLeft, active, kept]
    omega

theorem Spent.lowers_resolved (spent : rule.Spent s) (aging : s.Aging wallMs)
    (resolved : s.status = .resolved) (positive : 0 < clockMs.toInt)
    (clock : clockMs.toInt = s.clockMs.toInt + max 0 (timerMs - s.clockWallMs.toInt))
    (ingestMs nowMs : Int64) :
    rule.idle (rule.evaluate s clockMs ingestMs nowMs).1 clockMs = true ∨
      rule.firingsLeft (rule.evaluate s clockMs ingestMs nowMs).1 (timerMs + 5000) + 1 ≤
        rule.firingsLeft s timerMs := by
  have inactive : s.status ≠ .active := by
    rw [resolved]
    exact RuleStatus.noConfusion
  have at' := aging.resolvedAt resolved
  have high := clockMs.toInt_lt
  have difference := Exact.sub clockMs s.resolvedAtMs (by omega) (by omega)
  rw [rule.evaluate_quiet s clockMs ingestMs nowMs inactive spent.quiet]
  by_cases cooled : rule.config.cooldownMs ≤ clockMs - s.resolvedAtMs
  · left
    simp only [PortScanRule.idle, resolved, cooled, decide_true, Bool.and_true]
    exact spent.nothing
  · right
    rw [Int64.le_iff_toInt_le, difference] at cooled
    simp only [firingsLeft, resolved]
    omega

end PortScanRule

namespace PortScanDetector

/-- How often the timer fires until nothing is held, at most. -/
def firingsLeft (d : PortScanDetector) : Nat :=
  match d.state, d.pendingTimer with
  | some s, some timerMs => d.rule.firingsLeft s timerMs.toInt
  | _, _ => 0

/-- By how much the next timer is late: it is due before the wall time at which the views of an active
incident came, or its clock is behind the one at which the incident was resolved. -/
def delayMs (d : PortScanDetector) : Nat :=
  match d.state, d.pendingTimer with
  | some s, some timerMs =>
    match s.status with
    | .none => 0
    | .active => (s.clockWallMs.toInt - timerMs.toInt).toNat
    | .resolved =>
      (s.resolvedAtMs.toInt - (s.clockMs.toInt + (timerMs.toInt - s.clockWallMs.toInt))).toNat
  | _, _ => 0

theorem Aging.firingsLeft_le {d : PortScanDetector} {wallMs : Int64} (aging : d.Aging wallMs)
    (hold : 0 ≤ d.rule.config.holdMs) (cooldown : 0 ≤ d.rule.config.cooldownMs) :
    d.firingsLeft ≤ (d.rule.config.holdMs.toInt.toNat + d.rule.config.cooldownMs.toInt.toNat +
      d.delayMs) / 5000 + 3 := by
  have zero : (0 : Int64).toInt = 0 := rfl
  rw [Int64.le_iff_toInt_le] at hold cooldown
  unfold firingsLeft delayMs
  cases held : d.state with
  | none => exact Nat.zero_le _
  | some s =>
      cases d.pendingTimer with
      | none => exact Nat.zero_le _
      | some timerMs =>
          have clock := (aging.aging s held).clock
          have least : Int64.minValue.toInt = -9223372036854775808 := rfl
          cases status : s.status with
          | none =>
              simp only [PortScanRule.firingsLeft, status]
              omega
          | active =>
              have since : s.clearSinceMs.toInt ≤ s.clockMs.toInt := by
                rcases (aging.aging s held).since status with unset | since
                · rw [unset]
                  omega
                · exact since.2
              simp only [PortScanRule.firingsLeft, status]
              omega
          | resolved =>
              simp only [PortScanRule.firingsLeft, status]
              omega

variable {d : PortScanDetector} {wallMs : Int64}

theorem finish_fired (rule : PortScanRule) (state : Option RuleState) {s : RuleState}
    (busy : s.status ≠ .none) (atMs : Int64) :
    PortScanDetector.finish ⟨rule, state, none, []⟩ s atMs =
      if rule.idle s (s.silentClock atMs) then ⟨rule, none, none, []⟩
      else ⟨rule, some s, some (atMs + tickMs), [atMs + tickMs]⟩ := by
  rw [finish_eq rfl]
  by_cases idle : rule.idle s (s.silentClock atMs) = true
  · rw [if_pos idle, if_pos idle]
  · rw [if_neg idle, if_neg idle]
    exact if_neg fun kept => kept.elim busy (fun known => by cases known)

/-- Without evidence every firing is one less to come. -/
theorem Aging.lowers (aging : d.Aging wallMs) (armed : d.Armed) {timestamp nowMs : Int64}
    (due : timestamp ∈ d.timers) (reached : timestamp.toInt ≤ nowMs.toInt)
    (forward : wallMs.toInt ≤ nowMs.toInt) (now : nowMs < farMs)
    (spent : ∀ s ∈ d.state, d.rule.Spent s) :
    (d.fire timestamp).1.firingsLeft + 1 ≤ d.firingsLeft := by
  rcases armed.due due with ⟨pending, s, held, busy⟩
  have later := (aging.aging s held).later forward
  have timer := aging.timer timestamp pending
  have before : timestamp < farMs := Int64.lt_of_le_of_lt (Int64.le_iff_toInt_le.mpr reached) now
  have silent := later.silentClock now timer.1 before
  have clock := later.clock
  have limit := Int64.lt_iff_toInt_lt.mp before
  rw [farMs_toInt] at limit
  have tick : tickMs.toInt = 5000 := rfl
  have sum := Exact.add timestamp tickMs (by omega) (by omega)
  have here : d.firingsLeft = d.rule.firingsLeft s timestamp.toInt := by
    simp only [firingsLeft, held, pending]
  have lowers : d.rule.idle (d.rule.evaluate s (s.silentClock timestamp) 0 timestamp).1
        (s.silentClock timestamp) = true ∨
      d.rule.firingsLeft (d.rule.evaluate s (s.silentClock timestamp) 0 timestamp).1
        (timestamp.toInt + 5000) + 1 ≤ d.rule.firingsLeft s timestamp.toInt := by
    cases status : s.status with
    | none => exact absurd status busy
    | active => exact (spent s held).lowers_active later (aging.marks s held) status silent 0 timestamp
    | resolved =>
        exact (spent s held).lowers_resolved later status (by omega) silent 0 timestamp
  have same := d.rule.evaluate_silentClock s (s.silentClock timestamp) 0 timestamp timestamp
  have busy' : (d.rule.evaluate s (s.silentClock timestamp) 0 timestamp).1.status ≠ .none :=
    fun none' => busy (PortScanRule.evaluate_none _ _ _ _ _ none').1
  rw [fire_eq armed due held, onClock_eq aging held, finish_fired _ _ busy', same, here]
  split
  · exact PortScanRule.firingsLeft_pos busy
  · next kept =>
    have less := lowers.resolve_left kept
    simp only [firingsLeft, sum, tick]
    exact less

theorem finish_active {s : RuleState} (active : s.status = .active) (atMs : Int64) :
    (d.finish s atMs).state = some s := by
  have busy : ¬ d.rule.idle s (s.silentClock atMs) = true := by
    simp [PortScanRule.idle, active]
  rw [finish, if_neg busy]
  exact d.store_state s atMs

/-- What the incident without evidence has emitted since its last views came: it is active and has
at most been updated, or it was resolved. -/
inductive Closing (d : PortScanDetector) (incidentId : String) (out : List Transition) : Prop where
  | active (s : RuleState) (held : d.state = some s) (active : s.status = .active)
      (told : ¬ d.rule.Changed s) (same : s.incidentId = incidentId)
      (few : out.map (·.status) = [] ∨ out.map (·.status) = [.update])
      (own : ∀ t ∈ out, t.incidentId = incidentId)
  | resolved (resolved : ∀ s ∈ d.state, s.status = .resolved)
      (once : out.map (·.status) = [.resolve] ∨ out.map (·.status) = [.update, .resolve])
      (own : ∀ t ∈ out, t.incidentId = incidentId)

theorem Closing.evaluate {s : RuleState} (active : s.status = .active) {out : List Transition}
    (few : out.map (·.status) = [] ∨ out.map (·.status) = [.update] ∧ ¬ d.rule.Changed s)
    (own : ∀ t ∈ out, t.incidentId = s.incidentId) (clockMs ingestMs nowMs atMs : Int64) :
    (d.finish (d.rule.evaluate s clockMs ingestMs nowMs).1 atMs).Closing s.incidentId
      (out ++ (d.rule.evaluate s clockMs ingestMs nowMs).2) := by
  have closes := @PortScanRule.evaluate_closes d.rule s active clockMs ingestMs nowMs
  rcases closes with ⟨ids, ⟨resolved, emits⟩ | ⟨still, told, same, emits⟩⟩
  · apply Closing.resolved
    · intro u held
      rcases d.finish_state (d.rule.evaluate s clockMs ingestMs nowMs).1 atMs with none | stored
      · rw [none] at held
        cases held
      · rw [stored] at held
        cases held
        exact resolved
    · rw [List.map_append, emits]
      exact few.imp (fun nothing => by rw [nothing]; rfl) (fun update => by rw [update.1]; rfl)
    · exact List.forall_mem_append.mpr ⟨own, ids⟩
  · apply Closing.active _ (finish_active still atMs) still _ same
    · rw [List.map_append, emits]
      rcases few with nothing | ⟨update, unchanged⟩
      · rw [nothing]
        split
        · exact Or.inr rfl
        · exact Or.inl rfl
      · rw [update, if_neg unchanged]
        exact Or.inr rfl
    · exact List.forall_mem_append.mpr ⟨own, ids⟩
    · rw [finish_rule]
      exact told

theorem closing_process {s : RuleState} (held : d.state = some s) (active : s.status = .active)
    (set : ViewSet) (nowMs : Int64) :
    (d.processElement set nowMs).1.Closing s.incidentId (d.processElement set nowMs).2 := by
  rcases PortScanRule.received_fields s set nowMs with ⟨_, _, _, _, _, fields⟩
  have viewed : (PortScanRule.received s set nowMs).incidentId = s.incidentId := by
    rw [fields]
  have still : (PortScanRule.received s set nowMs).status = .active :=
    (received_status s set nowMs).trans active
  have few : ([] : List Transition).map (·.status) = [] ∨
      ([] : List Transition).map (·.status) = [.update] ∧
        ¬ d.rule.Changed (PortScanRule.received s set nowMs) := Or.inl rfl
  have closes := Closing.evaluate still few (by simp)
    (PortScanRule.received s set nowMs).clockMs set.ingest nowMs nowMs
  rw [viewed] at closes
  have processed : d.processElement set nowMs =
      (d.finish (d.rule.onViews s set nowMs).1 nowMs, (d.rule.onViews s set nowMs).2) := by
    rw [processElement, held]
    rfl
  rw [processed]
  exact closes

theorem Closing.fire {incidentId : String} {out : List Transition} (closing : d.Closing incidentId out)
    (aging : d.Aging wallMs) (armed : d.Armed) {timestamp : Int64} (due : timestamp ∈ d.timers)
    (spent : ∀ s ∈ d.state, d.rule.Spent s) :
    (d.fire timestamp).1.Closing incidentId (out ++ (d.fire timestamp).2) := by
  rcases armed.due due with ⟨_, s, held, _⟩
  rw [fire_eq armed due held, onClock_eq aging held]
  cases closing with
  | active u isHeld active told same few own =>
      cases held.symm.trans isHeld
      subst same
      exact Closing.evaluate (d := ⟨d.rule, some s, none, []⟩) active
        (few.imp_right fun update => ⟨update, told⟩) own _ _ _ _
  | resolved resolved once own =>
      have inactive : s.status ≠ .active := by
        rw [resolved s held]
        exact RuleStatus.noConfusion
      rw [d.rule.evaluate_quiet s _ _ _ inactive (spent s held).quiet, List.append_nil]
      refine Closing.resolved ?_ once own
      intro u stored
      rcases PortScanDetector.finish_state ⟨d.rule, some s, none, []⟩ s timestamp with none | same
      · rw [none] at stored
        cases stored
      · rw [same] at stored
        cases stored
        exact resolved s held

end PortScanDetector

end PiAgents.Detection
