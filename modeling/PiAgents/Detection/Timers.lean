import PiAgents.Detection.IdleState
import PiAgents.Detection.RunViews

/-! The timers of the two operators on one key: of each there is at most one, and there is one as
long as time can still change what is held. -/

namespace PiAgents.Detection

namespace RollingViews

/-- A timer is registered while windows are held, and the operator knows which. -/
structure Armed (s : RollingViews) : Prop where
  registered : s.timers = s.pendingTimer.toList
  holds : s.pendingTimer.isSome = s.windows.isSome

theorem schedule_registered (s : RollingViews) (registered : s.timers = s.pendingTimer.toList)
    (atMs : Int64) : (s.schedule atMs).timers = [atMs] := by
  cases pending : s.pendingTimer with
  | none => simp [schedule, registered, pending]
  | some timer => simp [schedule, registered, pending]

variable {s : RollingViews}

theorem Armed.process (armed : s.Armed) (record : FlowRecord) (nowMs : Int64) :
    (s.processElement record nowMs).1.Armed :=
  ⟨schedule_registered _ armed.registered _, rfl⟩

theorem Armed.due (armed : s.Armed) {timestamp : Int64} (due : timestamp ∈ s.timers) :
    s.pendingTimer = some timestamp ∧ ∃ w, s.windows = some w := by
  have holds := armed.holds
  rw [armed.registered] at due
  cases pending : s.pendingTimer with
  | none =>
      rw [pending] at due
      cases due
  | some timer =>
      rw [pending] at due holds
      rw [Option.toList_some, List.mem_singleton] at due
      exact ⟨congrArg some due.symm, Option.isSome_iff_exists.mp holds.symm⟩

theorem Armed.pending_iff (armed : s.Armed) : s.pendingTimer = none ↔ s.windows = none := by
  rw [← Option.not_isSome_iff_eq_none, ← Option.not_isSome_iff_eq_none, armed.holds]

theorem fire_pending (s : RollingViews) (timestamp : Int64) (w : DeviceWindows)
    (present : s.windows = some w) :
    (s.fire timestamp).1.pendingTimer =
      if (w.advanceTo (s.silentClock w timestamp)).1.isEmpty then none
      else some (timestamp + tickMs) := by
  rw [fire_some s timestamp w present]
  simp only [settle]
  split
  · cases (w.advanceTo (s.silentClock w timestamp)).2
    · rfl
    · rfl
  · rfl

theorem Armed.fire (armed : s.Armed) {timestamp : Int64} (due : timestamp ∈ s.timers) :
    (s.fire timestamp).1.Armed := by
  rcases armed.due due with ⟨pending, w, present⟩
  have windows := (s.fire_windows timestamp w present).1
  have next := s.fire_pending timestamp w present
  have none' : s.timers.erase timestamp = [] := by
    rw [armed.registered, pending, Option.toList_some, List.erase_cons_head]
  constructor
  · rw [next, fire_some s timestamp w present]
    simp only [settle, none']
    split
    · exact (tick_to_fields _ _ _).2.2
    · apply schedule_registered
      cases (w.advanceTo (s.silentClock w timestamp)).2
      · rfl
      · rfl
  · rw [next, windows]
    split
    · rfl
    · rfl

end RollingViews

namespace PortScanDetector

/-- A timer is registered while there is an incident or its cooldown, and the operator knows which. -/
structure Armed (d : PortScanDetector) : Prop where
  registered : d.timers = d.pendingTimer.toList
  holds : d.pendingTimer.isSome = true ↔ ∃ s, d.state = some s ∧ s.status ≠ .none

variable {d : PortScanDetector}

theorem finish_eq (registered : d.timers = d.pendingTimer.toList) (s : RuleState)
    (nowMs : Int64) : d.finish s nowMs =
      if d.rule.idle s (s.silentClock nowMs) then ⟨d.rule, none, none, []⟩
      else if s.status = .none ∨ d.pendingTimer.isSome then { d with state := some s }
      else ⟨d.rule, some s, some (nowMs + tickMs), [nowMs + tickMs]⟩ := by
  cases d with
  | mk rule state pendingTimer timers =>
      replace registered : timers = pendingTimer.toList := registered
      subst registered
      unfold finish
      split
      · cases pendingTimer with
        | none => rfl
        | some timer => simp [drop]
      · cases pendingTimer with
        | none => by_cases quiet : s.status = .none <;> simp [store, quiet]
        | some timer => simp [store]

theorem finish_armed (registered : d.timers = d.pendingTimer.toList) (s : RuleState)
    (nowMs : Int64) (waits : d.pendingTimer.isSome → s.status ≠ .none) :
    (d.finish s nowMs).Armed := by
  rw [finish_eq registered]
  split
  · exact ⟨rfl, by simp⟩
  · split
    · next kept =>
        refine ⟨registered, ?_⟩
        constructor
        · exact fun known => ⟨s, rfl, waits known⟩
        · rintro ⟨held, isHeld, busy⟩
          cases isHeld
          exact kept.resolve_left busy
    · next new =>
        rw [not_or] at new
        exact ⟨rfl, fun _ => ⟨s, rfl, new.1⟩, fun _ => rfl⟩

theorem Armed.process (armed : d.Armed) (set : ViewSet) (nowMs : Int64) :
    (d.processElement set nowMs).1.Armed := by
  apply finish_armed armed.registered
  intro known none'
  rcases armed.holds.mp known with ⟨s, held, busy⟩
  rw [held, Option.getD_some] at none'
  have before := (PortScanRule.evaluate_none _ _ _ _ _ none').1
  rw [received_status] at before
  exact busy before

theorem Armed.due (armed : d.Armed) {timestamp : Int64} (due : timestamp ∈ d.timers) :
    d.pendingTimer = some timestamp ∧ ∃ s, d.state = some s ∧ s.status ≠ .none := by
  have holds := armed.holds
  rw [armed.registered] at due
  cases pending : d.pendingTimer with
  | none =>
      rw [pending] at due
      cases due
  | some timer =>
      rw [pending] at due holds
      rw [Option.toList_some, List.mem_singleton] at due
      exact ⟨congrArg some due.symm, holds.mp rfl⟩

theorem fire_eq (armed : d.Armed) {timestamp : Int64} (due : timestamp ∈ d.timers)
    {s : RuleState} (held : d.state = some s) : d.fire timestamp =
      (PortScanDetector.finish ⟨d.rule, some s, none, []⟩ (d.rule.onClock s timestamp).1 timestamp,
        (d.rule.onClock s timestamp).2) := by
  have erased : d.timers.erase timestamp = [] := by
    rw [armed.registered, (armed.due due).1, Option.toList_some, List.erase_cons_head]
  simp only [fire, onTimer, held, erased]

theorem Armed.fire (armed : d.Armed) {timestamp : Int64} (due : timestamp ∈ d.timers) :
    (d.fire timestamp).1.Armed := by
  rcases armed.due due with ⟨_, s, held, _⟩
  rw [fire_eq armed due held]
  apply finish_armed rfl
  intro known
  cases known

end PortScanDetector

end PiAgents.Detection
