import Mathlib.Data.List.Basic

/-! Scripts: programs that run one command after the other and go on according to how each ended.
What a script does is said by two predicates, one that holds in every state it passes through and
one that holds where it ends. -/

namespace PiAgents.Scripts

inductive Script (Command Reply Error Result : Type) where
  | done (result : Result)
  | fail (error : Error)
  | call (command : Command) (next : Reply → Script Command Reply Error Result)

variable {Command Reply Error Result Other State : Type}

namespace Script

def andThen (script : Script Command Reply Error Result)
    (rest : Result → Script Command Reply Error Other) : Script Command Reply Error Other :=
  match script with
  | done result => rest result
  | fail error => fail error
  | call command next => call command fun reply => (next reply).andThen rest

instance : Monad (Script Command Reply Error) where
  pure := done
  bind := andThen

@[simp] theorem pure_eq (result : Result) :
    (pure result : Script Command Reply Error Result) = done result := rfl

@[simp] theorem done_bind (result : Result) (rest : Result → Script Command Reply Error Other) :
    (done result >>= rest) = rest result := rfl

@[simp] theorem fail_bind (error : Error) (rest : Result → Script Command Reply Error Other) :
    ((fail error : Script Command Reply Error Result) >>= rest) = fail error := rfl

@[simp] theorem call_bind (command : Command) (next : Reply → Script Command Reply Error Result)
    (rest : Result → Script Command Reply Error Other) :
    (call command next >>= rest) = call command fun reply => next reply >>= rest := rfl

theorem bind_done (script : Script Command Reply Error Result) : script >>= done = script := by
  induction script with
  | done result => rfl
  | fail error => rfl
  | call command next ih => exact congrArg (call command) (funext ih)

theorem bind_bind {Next : Type} (script : Script Command Reply Error Result)
    (rest : Result → Script Command Reply Error Other)
    (last : Other → Script Command Reply Error Next) :
    script >>= rest >>= last = script >>= fun result => rest result >>= last := by
  induction script with
  | done result => rfl
  | fail error => rfl
  | call command next ih => exact congrArg (call command) (funext ih)

/-- The script passes only through states of the one predicate and ends as the other says. -/
def Meets (execute : Command → State → Reply × State) (always : State → Prop)
    (ends : Except Error Result → State → Prop) :
    Script Command Reply Error Result → State → Prop
  | done result, state => always state ∧ ends (.ok result) state
  | fail error, state => always state ∧ ends (.error error) state
  | call command next, state =>
      always state ∧ (next (execute command state).1).Meets execute always ends
        (execute command state).2

variable {execute : Command → State → Reply × State} {always : State → Prop}

theorem Meets.now {ends : Except Error Result → State → Prop}
    {script : Script Command Reply Error Result} {state : State}
    (meets : script.Meets execute always ends state) : always state := by
  cases script with
  | done result => exact meets.1
  | fail error => exact meets.1
  | call command next => exact meets.1

/-- The rule of sequence: the rest of the script starts where its first part ended. -/
theorem Meets.bind {between : Except Error Result → State → Prop}
    {ends : Except Error Other → State → Prop} {script : Script Command Reply Error Result}
    {rest : Result → Script Command Reply Error Other} {state : State}
    (first : script.Meets execute always between state)
    (second : ∀ result after, between (.ok result) after →
      (rest result).Meets execute always ends after)
    (failed : ∀ error after, between (.error error) after → ends (.error error) after) :
    (script >>= rest).Meets execute always ends state := by
  induction script generalizing state with
  | done result => exact second result state first.2
  | fail error => exact ⟨first.1, failed error state first.2⟩
  | call command next ih => exact ⟨first.1, ih _ first.2⟩

theorem Meets.weaken {other : State → Prop} {ends stronger : Except Error Result → State → Prop}
    {script : Script Command Reply Error Result} {state : State}
    (meets : script.Meets execute other stronger state)
    (passes : ∀ state, other state → always state)
    (ended : ∀ result state, stronger result state → ends result state) :
    script.Meets execute always ends state := by
  induction script generalizing state with
  | done result => exact ⟨passes state meets.1, ended (.ok result) state meets.2⟩
  | fail error => exact ⟨passes state meets.1, ended (.error error) state meets.2⟩
  | call command next ih => exact ⟨passes state meets.1, ih _ meets.2⟩

/-- A script run to its end with nothing in between. -/
def run (execute : Command → State → Reply × State) :
    Script Command Reply Error Result → State → Except Error Result × State
  | done result, state => (.ok result, state)
  | fail error, state => (.error error, state)
  | call command next, state =>
      (next (execute command state).1).run execute (execute command state).2

theorem Meets.run {ends : Except Error Result → State → Prop}
    {script : Script Command Reply Error Result} {state : State}
    (meets : script.Meets execute always ends state) :
    ends (script.run execute state).1 (script.run execute state).2 := by
  induction script generalizing state with
  | done result => exact meets.2
  | fail error => exact meets.2
  | call command next ih => exact ih _ meets.2

end Script

end PiAgents.Scripts
