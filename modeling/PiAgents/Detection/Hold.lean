import PiAgents.Detection.Evidence

/-! The hold before a resolve against the history of evaluations: what the rule keeps as the start
of the clear condition is the clock of the first evaluation of the run that is clear by now. -/

namespace PiAgents.Detection

/-- One evaluation of the rule: its device clock, the clear condition then, and what it emitted. -/
structure Evaluation where
  clockMs : Int64
  clear : Bool
  emitted : List Transition

namespace Evaluation

def starts (e : Evaluation) : Bool :=
  e.emitted.any fun t => t.status = .open ∨ t.status = .reopen

def clears (e : Evaluation) : Bool := e.clear && !e.starts

def resolves (e : Evaluation) : Prop := ∃ t ∈ e.emitted, t.status = .resolve

instance (e : Evaluation) : Decidable e.resolves :=
  inferInstanceAs (Decidable (∃ t ∈ e.emitted, t.status = .resolve))

end Evaluation

/-- The uninterrupted clear evaluations at the end, none of which opened an incident. -/
def clearRun (history : List Evaluation) : List Evaluation :=
  history.rtakeWhile Evaluation.clears

/-- The clock of the earliest evaluation of the run that the present one continues. -/
def heldSince (history : List Evaluation) (now : Evaluation) : Int64 :=
  ((clearRun history).head?.map Evaluation.clockMs).getD now.clockMs

theorem clearRun_after {before after : List Evaluation} {e : Evaluation} (unclear : e.clear = false) :
    ∀ f ∈ clearRun (before ++ e :: after), f ∈ after := by
  have broken : ¬ e.clears = true := by
    rw [Evaluation.clears, unclear, Bool.false_and]
    exact Bool.false_ne_true
  intro f member
  unfold clearRun at member
  induction after using List.reverseRecOn with
  | nil =>
      rw [List.rtakeWhile_concat_neg _ _ _ broken] at member
      cases member
  | append_singleton front last ih =>
      have split : before ++ e :: (front ++ [last]) = (before ++ e :: front) ++ [last] := by simp
      rw [split, List.rtakeWhile_concat] at member
      split at member
      · rcases List.mem_append.mp member with earlier | new
        · exact List.mem_append_left _ (ih earlier)
        · exact List.mem_append_right _ new
      · cases member

theorem heldSince_mem (history : List Evaluation) (now : Evaluation) :
    ∃ e ∈ clearRun history ++ [now], e.clockMs = heldSince history now := by
  unfold heldSince
  cases run : clearRun history with
  | nil => exact ⟨now, List.mem_singleton_self _, rfl⟩
  | cons first rest => exact ⟨first, List.mem_cons_self, rfl⟩

namespace PortScanRule

variable (rule : PortScanRule) (s : RuleState) (clockMs ingestMs nowMs : Int64)

theorem evaluate_resolves : (∃ t ∈ (rule.evaluate s clockMs ingestMs nowMs).2, t.status = .resolve) ↔
    s.status = .active ∧ rule.Settled s clockMs := by
  by_cases active : s.status = .active
  · by_cases settled : rule.Settled s clockMs
    · rw [rule.evaluate_resolve s clockMs ingestMs nowMs active settled]
      exact iff_of_true ⟨_, List.mem_singleton_self _, rfl⟩ ⟨active, settled⟩
    · apply iff_of_false _ fun both => settled both.2
      rintro ⟨t, member, resolves⟩
      by_cases changed : rule.Changed s
      · rw [rule.evaluate_update s clockMs ingestMs nowMs active settled changed] at member
        rw [List.mem_singleton.mp member] at resolves
        cases resolves
      · rw [rule.evaluate_unchanged s clockMs ingestMs nowMs active settled changed] at member
        cases member
  · apply iff_of_false _ fun both => active both.1
    rintro ⟨t, member, resolves⟩
    by_cases quiet : rule.overMask s = 0
    · rw [rule.evaluate_quiet s clockMs ingestMs nowMs active quiet] at member
      cases member
    · by_cases cooling : rule.Cooling s clockMs
      · rw [rule.evaluate_reopen s clockMs ingestMs nowMs quiet cooling] at member
        rw [List.mem_singleton.mp member] at resolves
        cases resolves
      · rw [rule.evaluate_open s clockMs ingestMs nowMs active quiet cooling] at member
        rw [List.mem_singleton.mp member] at resolves
        cases resolves

theorem evaluate_active (after : (rule.evaluate s clockMs ingestMs nowMs).1.status = .active) :
    (s.status = .active ∧
        (rule.evaluate s clockMs ingestMs nowMs).1.clearSinceMs = rule.clearSince s clockMs ∧
        ∀ t ∈ (rule.evaluate s clockMs ingestMs nowMs).2,
          ¬ (t.status = .open ∨ t.status = .reopen)) ∨
      (rule.evaluate s clockMs ingestMs nowMs).1.clearSinceMs = Int64.minValue ∧
        ∃ t ∈ (rule.evaluate s clockMs ingestMs nowMs).2, t.status = .open ∨ t.status = .reopen := by
  by_cases active : s.status = .active
  · left
    by_cases settled : rule.Settled s clockMs
    · rw [rule.evaluate_resolve s clockMs ingestMs nowMs active settled] at after
      cases after
    · by_cases changed : rule.Changed s
      · rw [rule.evaluate_update s clockMs ingestMs nowMs active settled changed]
        refine ⟨active, rfl, ?_⟩
        intro t member starts
        rw [List.mem_singleton.mp member] at starts
        rcases starts with open' | reopen
        · cases open'
        · cases reopen
      · rw [rule.evaluate_unchanged s clockMs ingestMs nowMs active settled changed]
        refine ⟨active, rfl, ?_⟩
        intro t member
        cases member
  · right
    by_cases quiet : rule.overMask s = 0
    · rw [rule.evaluate_quiet s clockMs ingestMs nowMs active quiet] at after
      exact absurd after active
    · by_cases cooling : rule.Cooling s clockMs
      · rw [rule.evaluate_reopen s clockMs ingestMs nowMs quiet cooling]
        exact ⟨rfl, _, List.mem_singleton_self _, Or.inr rfl⟩
      · rw [rule.evaluate_open s clockMs ingestMs nowMs active quiet cooling]
        exact ⟨rfl, _, List.mem_singleton_self _, Or.inl rfl⟩

theorem transition_under {status : TransitionStatus} (quiet : rule.overMask s = 0) :
    ∀ pair ∈ (rule.transition s status clockMs ingestMs nowMs).openThresholds.zip
        (rule.transition s status clockMs ingestMs nowMs).values, ¬ pair.1 ≤ pair.2 := by
  rw [overMask_eq_zero] at quiet
  intro pair member
  rcases List.mem_iff_getElem?.mp member with ⟨i, found⟩
  rcases List.getElem?_zip_eq_some.mp found with ⟨threshold, value⟩
  have bound : i < rule.config.openThresholds.length := (List.getElem?_eq_some_iff.mp threshold).1
  have isValue : s.value i = pair.2 := by
    change ((List.range rule.config.openThresholds.length).map s.value)[i]? = some pair.2 at value
    rw [List.getElem?_map, List.getElem?_range bound] at value
    exact Option.some.inj value
  rw [← isValue]
  exact quiet (pair.1, i) (List.mem_zipIdx_iff_getElem?.mpr threshold)

/-- The state that a call evaluates, and at which clock. -/
def evaluated (s : RuleState) : RuleCall → Option (RuleState × Int64 × Int64 × Int64)
  | .onViews set nowMs =>
      let s := received s set nowMs
      some (s, s.clockMs, set.ingest, nowMs)
  | .onClock nowMs =>
      if s.clockMs = Int64.minValue then none else some (s, s.silentClock nowMs, 0, nowMs)

theorem apply_none {call : RuleCall} (silent : evaluated s call = none) :
    rule.apply s call = (s, []) := by
  cases call with
  | onViews set nowMs => cases silent
  | onClock nowMs =>
      rw [evaluated] at silent
      split at silent
      · next unset => rw [apply, onClock, if_pos unset]
      · cases silent

variable {s clockMs ingestMs nowMs}

theorem apply_evaluated {v : RuleState} {call : RuleCall}
    (given : evaluated s call = some (v, clockMs, ingestMs, nowMs)) :
    rule.apply s call = rule.evaluate v clockMs ingestMs nowMs ∧ v.status = s.status ∧
      v.clearSinceMs = s.clearSinceMs := by
  cases call with
  | onViews set wallMs =>
      cases given
      refine ⟨rfl, received_status s set _, ?_⟩
      rcases received_fields s set _ with ⟨_, _, _, _, _, fields⟩
      rw [fields]
  | onClock wallMs =>
      rw [evaluated] at given
      split at given
      · cases given
      · next set =>
          cases given
          rw [apply, onClock, if_neg set]
          exact ⟨rfl, rfl, rfl⟩

end PortScanRule

structure HoldRun where
  rule : PortScanRule
  state : RuleState
  history : List Evaluation

namespace HoldRun

def start (rule : PortScanRule) : HoldRun := ⟨rule, .new, []⟩

def evaluation (run : HoldRun) (call : RuleCall) : Option Evaluation :=
  (PortScanRule.evaluated run.state call).map fun given =>
    ⟨given.2.1, run.rule.clear given.1, (run.rule.apply run.state call).2⟩

def step (run : HoldRun) (call : RuleCall) : HoldRun :=
  { run with
    state := (run.rule.apply run.state call).1
    history := run.history ++ (run.evaluation call).toList }

/-- The clear condition is kept with the clock of the run's first evaluation, where that is not the
clock that stands for none. -/
def Tracks (run : HoldRun) : Prop :=
  run.state.status = .active → (∀ e ∈ clearRun run.history, e.clockMs ≠ Int64.minValue) →
    run.state.clearSinceMs =
      ((clearRun run.history).head?.map Evaluation.clockMs).getD Int64.minValue

theorem tracks_start (rule : PortScanRule) : (start rule).Tracks := by
  intro active
  cases active

/-- The evaluation resolves the incident exactly if it is active, the evaluation is clear, and the
earliest one of the uninterrupted clear evaluations is at least the hold behind. -/
def ResolvesAtHold (run : HoldRun) (e : Evaluation) : Prop :=
  e.resolves ↔ run.state.status = .active ∧ e.clear ∧
    run.rule.config.holdMs.toInt ≤ e.clockMs.toInt - (heldSince run.history e).toInt

section Step

variable {run : HoldRun}

theorem clearSince_eq (rule : PortScanRule) {s : RuleState} {clockMs : Int64}
    {history : List Evaluation} (clear : rule.clear s = true)
    (since : s.clearSinceMs =
      ((clearRun history).head?.map Evaluation.clockMs).getD Int64.minValue)
    (set : ∀ e ∈ clearRun history, e.clockMs ≠ Int64.minValue) :
    rule.clearSince s clockMs = ((clearRun history).head?.map Evaluation.clockMs).getD clockMs := by
  rw [PortScanRule.clearSince, if_pos clear, since]
  cases run : clearRun history with
  | nil => exact if_pos rfl
  | cons first rest =>
      have started := set first (by rw [run]; exact List.mem_cons_self)
      exact if_neg started

theorem step_tracks (tracks : run.Tracks) (call : RuleCall) : (run.step call).Tracks := by
  cases given : PortScanRule.evaluated run.state call with
  | none =>
      have silent := run.rule.apply_none run.state given
      have same : run.step call = run := by
        simp only [step, silent, evaluation, given, Option.map_none, Option.toList_none,
          List.append_nil]
      rw [same]
      exact tracks
  | some evaluated =>
      rcases evaluated with ⟨v, clockMs, ingestMs, nowMs⟩
      rcases run.rule.apply_evaluated given with ⟨applied, status, clearSince⟩
      have history : (run.step call).history = run.history ++
          [⟨clockMs, run.rule.clear v, (run.rule.evaluate v clockMs ingestMs nowMs).2⟩] := by
        simp only [step, evaluation, given, Option.map_some, Option.toList_some, applied]
      have state : (run.step call).state = (run.rule.evaluate v clockMs ingestMs nowMs).1 :=
        congrArg Prod.fst applied
      intro active set
      rw [state] at active ⊢
      rw [history] at set ⊢
      rcases run.rule.evaluate_active v clockMs ingestMs nowMs active with
        ⟨wasActive, since, continues⟩ | ⟨since, starts⟩
      · have quiet : Evaluation.starts
            ⟨clockMs, run.rule.clear v, (run.rule.evaluate v clockMs ingestMs nowMs).2⟩ = false := by
          apply List.any_eq_false.mpr
          intro t member
          simpa using continues t member
        rw [since]
        by_cases clear : run.rule.clear v = true
        · have clears : Evaluation.clears
              ⟨clockMs, run.rule.clear v, (run.rule.evaluate v clockMs ingestMs nowMs).2⟩ = true := by
            rw [Evaluation.clears, quiet, clear]
            rfl
          rw [clearRun, List.rtakeWhile_concat_pos _ _ _ clears] at set ⊢
          have earlier : ∀ e ∈ clearRun run.history, e.clockMs ≠ Int64.minValue :=
            fun e member => set e (List.mem_append_left _ member)
          rw [status] at wasActive
          have before := tracks wasActive earlier
          rw [← clearSince] at before
          rw [clearSince_eq run.rule clear before earlier]
          change _ = (((clearRun run.history ++ [_]).head?).map Evaluation.clockMs).getD _
          cases clearRun run.history with
          | nil => rfl
          | cons first rest => rfl
        · have unclear : ¬ Evaluation.clears
              ⟨clockMs, run.rule.clear v, (run.rule.evaluate v clockMs ingestMs nowMs).2⟩ = true := by
            simp [Evaluation.clears, clear]
          rw [clearRun, List.rtakeWhile_concat_neg _ _ _ unclear, PortScanRule.clearSince,
            if_neg clear]
          rfl
      · have broken : ¬ Evaluation.clears
            ⟨clockMs, run.rule.clear v, (run.rule.evaluate v clockMs ingestMs nowMs).2⟩ = true := by
          rcases starts with ⟨t, member, opens⟩
          have started : Evaluation.starts
              ⟨clockMs, run.rule.clear v, (run.rule.evaluate v clockMs ingestMs nowMs).2⟩ = true :=
            List.any_eq_true.mpr ⟨t, member, decide_eq_true opens⟩
          simp [Evaluation.clears, started]
        rw [clearRun, List.rtakeWhile_concat_neg _ _ _ broken, since]
        rfl

theorem run_tracks (tracks : run.Tracks) (calls : List RuleCall) :
    (Runs.run step run calls).Tracks := by
  induction calls generalizing run with
  | nil => exact tracks
  | cons call rest ih => exact ih (step_tracks tracks call)

theorem run_rule (run : HoldRun) (calls : List RuleCall) :
    (Runs.run step run calls).rule = run.rule := by
  induction calls generalizing run with
  | nil => rfl
  | cons call rest ih => exact ih (run.step call)

/-- The rule's difference of clocks is that to the first evaluation of the run. -/
theorem resolves_iff (tracks : run.Tracks) {call : RuleCall} {e : Evaluation}
    (evaluated : run.evaluation call = some e)
    (set : ∀ f ∈ clearRun run.history, f.clockMs ≠ Int64.minValue) :
    e.resolves ↔ run.state.status = .active ∧ e.clear ∧
      run.rule.config.holdMs ≤ e.clockMs - heldSince run.history e := by
  rcases Option.map_eq_some_iff.mp evaluated with ⟨⟨v, clockMs, ingestMs, nowMs⟩, given, rfl⟩
  rcases run.rule.apply_evaluated given with ⟨applied, status, clearSince⟩
  rw [Evaluation.resolves, applied, run.rule.evaluate_resolves, status]
  apply and_congr_right
  intro active
  rw [PortScanRule.Settled]
  apply and_congr_right
  intro clear
  have before := tracks active set
  rw [← clearSince] at before
  rw [clearSince_eq run.rule clear before set]
  rfl

theorem resolve_under (bounded : run.rule.config.Bounded) {call : RuleCall} {e : Evaluation}
    (evaluated : run.evaluation call = some e) {t : Transition} (member : t ∈ e.emitted)
    (resolves : t.status = .resolve) : ∀ pair ∈ t.openThresholds.zip t.values, ¬ pair.1 ≤ pair.2 := by
  rcases Option.map_eq_some_iff.mp evaluated with ⟨⟨v, clockMs, ingestMs, nowMs⟩, given, rfl⟩
  rcases run.rule.apply_evaluated given with ⟨applied, _, _⟩
  change t ∈ (run.rule.apply run.state call).2 at member
  rw [applied] at member
  have settled := (run.rule.evaluate_resolves v clockMs ingestMs nowMs).mp ⟨t, member, resolves⟩
  rw [run.rule.evaluate_resolve v clockMs ingestMs nowMs settled.1 settled.2] at member
  rw [List.mem_singleton.mp member]
  apply run.rule.transition_under
  exact run.rule.clear_overMask v bounded settled.2.1

theorem restarts (history : List Evaluation) (now : Evaluation) {before after : List Evaluation}
    {unclear : Evaluation} (split : history = before ++ unclear :: after)
    (notClear : unclear.clear = false) :
    ∃ e ∈ after ++ [now], e.clockMs = heldSince history now := by
  rcases heldSince_mem history now with ⟨e, member, since⟩
  refine ⟨e, ?_, since⟩
  rcases List.mem_append.mp member with inRun | isNow
  · rw [split] at inRun
    exact List.mem_append_left _ (clearRun_after notClear e inRun)
  · exact List.mem_append_right _ isNow

end Step

end HoldRun

/-- In any run of calls from a fresh state every evaluation respects the hold: one that is not clear
restarts it, and none at a threshold resolves. No clear evaluation may be at the least clock, and the
difference of the two clocks has to fit in a long. -/
theorem resolve_iff_held (rule : PortScanRule) (bounded : rule.config.Bounded)
    (calls : List RuleCall) (call : RuleCall) (e : Evaluation) :
    let run := Runs.run HoldRun.step (.start rule) calls
    run.evaluation call = some e →
    (∀ f ∈ clearRun run.history, f.clockMs ≠ Int64.minValue) →
    (e.clockMs - heldSince run.history e).toInt =
      e.clockMs.toInt - (heldSince run.history e).toInt →
    run.ResolvesAtHold e ∧
    (∀ before unclear after, run.history = before ++ unclear :: after → unclear.clear = false →
      e.resolves → ∃ f ∈ after ++ [e],
        rule.config.holdMs.toInt ≤ e.clockMs.toInt - f.clockMs.toInt) ∧
    ∀ t ∈ e.emitted, t.status = .resolve → ∀ pair ∈ t.openThresholds.zip t.values,
      ¬ pair.1 ≤ pair.2 := by
  intro run evaluated set fits
  have tracks : run.Tracks := HoldRun.run_tracks (HoldRun.tracks_start rule) calls
  have same : run.rule = rule := HoldRun.run_rule (.start rule) calls
  have held : run.ResolvesAtHold e := by
    rw [HoldRun.ResolvesAtHold, HoldRun.resolves_iff tracks evaluated set, Int64.le_iff_toInt_le,
      fits]
  refine ⟨held, ?_, ?_⟩
  · intro before unclear after split notClear resolves
    rcases HoldRun.restarts run.history e split notClear with ⟨f, member, since⟩
    refine ⟨f, member, ?_⟩
    rw [since, ← same]
    exact (held.mp resolves).2.2
  · intro t member resolves
    have bounded' : run.rule.config.Bounded := by
      rw [same]
      exact bounded
    exact HoldRun.resolve_under bounded' evaluated member resolves

def waveringScan : List RuleCall :=
  [probeViews 1000 20, probeViews 2000 0, probeViews 30000 15, probeViews 40000 0, .onClock 62000]

def waveringRun : HoldRun := Runs.run HoldRun.step (.start probeRule) waveringScan

theorem resolve_iff_held_wavering : ∃ e, waveringRun.evaluation (.onClock 100000) = some e ∧
    waveringRun.ResolvesAtHold e ∧
    (∀ before unclear after, waveringRun.history = before ++ unclear :: after →
      unclear.clear = false → e.resolves → ∃ f ∈ after ++ [e],
        probeRule.config.holdMs.toInt ≤ e.clockMs.toInt - f.clockMs.toInt) ∧
    ∀ t ∈ e.emitted, t.status = .resolve → ∀ pair ∈ t.openThresholds.zip t.values,
      ¬ pair.1 ≤ pair.2 := by
  have clocks : (clearRun waveringRun.history).map Evaluation.clockMs = [40000, 62000] := by
    decide +kernel
  have clock : (waveringRun.evaluation (.onClock 100000)).map Evaluation.clockMs = some 100000 := by
    decide +kernel
  rcases Option.map_eq_some_iff.mp clock with ⟨e, evaluated, now⟩
  refine ⟨e, evaluated, resolve_iff_held probeRule v1_valid.bounded waveringScan (.onClock 100000) e
    evaluated ?_ ?_⟩
  · intro f member
    have inClocks := List.mem_map_of_mem (f := Evaluation.clockMs) member
    change f.clockMs ∈ (clearRun waveringRun.history).map Evaluation.clockMs at inClocks
    rw [clocks] at inClocks
    rcases List.mem_cons.mp inClocks with first | second
    · rw [first]
      decide
    · rw [List.mem_singleton.mp second]
      decide
  · have since : heldSince waveringRun.history e = 40000 := by
      rw [heldSince, ← List.head?_map, clocks]
      rfl
    change (e.clockMs - heldSince waveringRun.history e).toInt =
      e.clockMs.toInt - (heldSince waveringRun.history e).toInt
    rw [since, now]
    decide

/-- The clear condition starts at the least clock, which stands for none. -/
def leastClock : HoldRun :=
  Runs.run HoldRun.step (.start probeRule) [probeViews Int64.minValue 20, probeViews Int64.minValue 0]

/-- The clear condition starts further back than a long can say. -/
def farClock : HoldRun :=
  Runs.run HoldRun.step (.start probeRule) [probeViews (Int64.minValue + 1) 20,
    probeViews (Int64.minValue + 1) 0]

theorem HoldRun.unresolved {run : HoldRun} {call : RuleCall} {clockMs sinceMs : Int64}
    {later : List Int64} (shown : (run.evaluation call).map (fun e =>
      (e.clockMs, e.clear, decide e.resolves)) = some (clockMs, true, false))
    (clocks : (clearRun run.history).map Evaluation.clockMs = sinceMs :: later)
    (active : run.state.status = .active)
    (enough : run.rule.config.holdMs.toInt ≤ clockMs.toInt - sinceMs.toInt) :
    ∃ e, run.evaluation call = some e ∧ ¬ run.ResolvesAtHold e := by
  rcases Option.map_eq_some_iff.mp shown with ⟨e, evaluated, parts⟩
  refine ⟨e, evaluated, ?_⟩
  intro held
  have clock : e.clockMs = clockMs := congrArg Prod.fst parts
  have clear : e.clear = true := congrArg (fun shown => shown.2.1) parts
  have none' : decide e.resolves = false := congrArg (fun shown => shown.2.2) parts
  have since : heldSince run.history e = sinceMs := by
    rw [heldSince, ← List.head?_map, clocks]
    rfl
  rw [← clock, ← since] at enough
  exact of_decide_eq_false none' (held.mpr ⟨active, clear, enough⟩)

theorem held_without_resolve :
    (∃ e, leastClock.evaluation (probeViews (Int64.minValue + 60000) 0) = some e ∧
      ¬ leastClock.ResolvesAtHold e) ∧
    ∃ e, farClock.evaluation (probeViews 1000 0) = some e ∧ ¬ farClock.ResolvesAtHold e := by
  constructor
  · have shown : (leastClock.evaluation (probeViews (Int64.minValue + 60000) 0)).map (fun e =>
        (e.clockMs, e.clear, decide e.resolves)) = some (Int64.minValue + 60000, true, false) := by
      decide +kernel
    have clocks : (clearRun leastClock.history).map Evaluation.clockMs = [Int64.minValue] := by
      decide +kernel
    have active : leastClock.state.status = .active := by decide +kernel
    exact HoldRun.unresolved shown clocks active (by decide)
  · have shown : (farClock.evaluation (probeViews 1000 0)).map (fun e =>
        (e.clockMs, e.clear, decide e.resolves)) = some (1000, true, false) := by
      decide +kernel
    have clocks : (clearRun farClock.history).map Evaluation.clockMs = [Int64.minValue + 1] := by
      decide +kernel
    have active : farClock.state.status = .active := by decide +kernel
    exact HoldRun.unresolved shown clocks active (by decide)

end PiAgents.Detection
