import Mathlib.Data.List.Basic

/-! Runs of a deterministic machine: the rule that carries an invariant through a run whose
steps all meet a condition on the state before the step. -/

namespace PiAgents.Runs

variable {State : Type*} {Event : Type*}

def run (step : State → Event → State) (state : State) (events : List Event) : State :=
  events.foldl step state

@[simp] theorem run_nil (step : State → Event → State) (state : State) :
    run step state [] = state := rfl

@[simp] theorem run_cons (step : State → Event → State) (state : State) (event : Event)
    (events : List Event) :
    run step state (event :: events) = run step (step state event) events := rfl

theorem run_append (step : State → Event → State) (state : State) (first second : List Event) :
    run step state (first ++ second) = run step (run step state first) second :=
  List.foldl_append

/-- Every step of the run meets a condition that reads the state before the step. -/
def Meets (step : State → Event → State) (condition : State → Event → Prop) :
    State → List Event → Prop
  | _, [] => True
  | state, event :: events => condition state event ∧ Meets step condition (step state event) events

theorem run_invariant {step : State → Event → State} {condition : State → Event → Prop}
    {invariant : State → Prop}
    (preserves : ∀ state event, invariant state → condition state event →
      invariant (step state event))
    {state : State} (holds : invariant state) {events : List Event}
    (meets : Meets step condition state events) : invariant (run step state events) := by
  induction events generalizing state with
  | nil => exact holds
  | cons event rest ih => exact ih (preserves state event holds meets.1) meets.2

/-- A measure that every counted event lowers, and no other raises, bounds how many there are. -/
theorem count_le {step : State → Event → State} {condition : State → Event → Prop}
    {invariant : State → Prop} (counted : Event → Bool) (measure : State → Nat)
    (preserves : ∀ state event, invariant state → condition state event →
      invariant (step state event))
    (lowers : ∀ state event, invariant state → condition state event →
      measure (step state event) + (if counted event then 1 else 0) ≤ measure state)
    {state : State} (holds : invariant state) {events : List Event}
    (meets : Meets step condition state events) : events.countP counted ≤ measure state := by
  induction events generalizing state with
  | nil => exact Nat.zero_le _
  | cons event rest ih =>
      rw [List.countP_cons]
      calc rest.countP counted + (if counted event then 1 else 0)
        _ ≤ measure (step state event) + (if counted event then 1 else 0) :=
          Nat.add_le_add_right (ih (preserves state event holds meets.1) meets.2) _
        _ ≤ measure state := lowers state event holds meets.1

theorem meets_congr {step : State → Event → State} {condition other : State → Event → Prop}
    {invariant : State → Prop}
    (preserves : ∀ state event, invariant state → invariant (step state event))
    (same : ∀ state event, invariant state → (condition state event ↔ other state event))
    {state : State} (holds : invariant state) (events : List Event) :
    Meets step condition state events ↔ Meets step other state events := by
  induction events generalizing state with
  | nil => exact Iff.rfl
  | cons event rest ih =>
      exact and_congr (same state event holds) (ih (preserves state event holds))

theorem meets_and {step : State → Event → State} {condition other : State → Event → Prop}
    {state : State} {events : List Event} :
    Meets step (fun state event => condition state event ∧ other state event) state events ↔
      Meets step condition state events ∧ Meets step other state events := by
  induction events generalizing state with
  | nil => simp [Meets]
  | cons event rest ih => simp only [Meets, ih, and_and_and_comm]

theorem meets_append {step : State → Event → State} {condition : State → Event → Prop}
    {state : State} {first second : List Event} :
    Meets step condition state (first ++ second) ↔
      Meets step condition state first ∧ Meets step condition (run step state first) second := by
  induction first generalizing state with
  | nil => simp [Meets]
  | cons event rest ih => simp only [List.cons_append, Meets, ih, run_cons, and_assoc]

instance {step : State → Event → State} {condition : State → Event → Prop}
    [∀ state event, Decidable (condition state event)] (state : State) (events : List Event) :
    Decidable (Meets step condition state events) := by
  induction events generalizing state with
  | nil => exact isTrue trivial
  | cons event rest ih => exact @instDecidableAnd _ _ _ (ih _)

end PiAgents.Runs
