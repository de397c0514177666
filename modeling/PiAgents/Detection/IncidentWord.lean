import Mathlib.Computability.RegularExpressions
import PiAgents.Lib.Decimal
import PiAgents.Detection.RuleSteps

/-! The transitions of a device over any run of its rule state: they form incidents, each one a
word of transitions with consecutive revisions, and no transition ID is used twice. -/

namespace PiAgents.Detection

inductive RuleCall where
  | onViews (set : ViewSet) (nowMs : Int64)
  | onClock (nowMs : Int64)
  deriving DecidableEq, Repr

namespace PortScanRule

def apply (rule : PortScanRule) (s : RuleState) : RuleCall → RuleState × List Transition
  | .onViews set nowMs => rule.onViews s set nowMs
  | .onClock nowMs => rule.onClock s nowMs

/-- The calls of a run with what each one emits. -/
def outputs (rule : PortScanRule) : RuleState → List RuleCall → List (RuleCall × List Transition)
  | _, [] => []
  | s, call :: calls => (call, (rule.apply s call).2) :: rule.outputs (rule.apply s call).1 calls

def emitted (rule : PortScanRule) (calls : List RuleCall) : List Transition :=
  (rule.outputs .new calls).flatMap Prod.snd

end PortScanRule

/-! The word of an incident. -/

section word

open RegularExpression (char)

def updates : RegularExpression TransitionStatus := RegularExpression.star (char .update)

def reopening : RegularExpression TransitionStatus := char .resolve * char .reopen

/-- OPEN UPDATE* (RESOLVE REOPEN UPDATE*)* -/
def activeWord : RegularExpression TransitionStatus :=
  char .open * (updates * RegularExpression.star (reopening * updates))

/-- The same, optionally ended by RESOLVE. -/
def incidentWord : RegularExpression TransitionStatus := activeWord * (1 + char .resolve)

private theorem kstar_round {A : Type*} [KleeneAlgebra A] (update again : A) :
    KStar.kstar update * KStar.kstar (again * KStar.kstar update) * update ≤
      KStar.kstar update * KStar.kstar (again * KStar.kstar update) := by
  have last : KStar.kstar update * update ≤ KStar.kstar update := kstar_mul_le_kstar
  calc
    _ = KStar.kstar update *
        (1 + KStar.kstar (again * KStar.kstar update) * (again * KStar.kstar update)) *
          update := by rw [one_add_kstar_mul]
    _ = KStar.kstar update * update + KStar.kstar update *
        (KStar.kstar (again * KStar.kstar update) * (again * (KStar.kstar update * update))) := by
      simp only [mul_add, add_mul, mul_one, mul_assoc]
    _ ≤ KStar.kstar update * 1 + KStar.kstar update *
        (KStar.kstar (again * KStar.kstar update) * (again * KStar.kstar update)) := by
      rw [mul_one]
      gcongr
    _ = KStar.kstar update * KStar.kstar (again * KStar.kstar update) := by
      rw [← mul_add, one_add_kstar_mul]

private theorem kstar_again {A : Type*} [KleeneAlgebra A] (update again : A) :
    KStar.kstar update * KStar.kstar (again * KStar.kstar update) * again ≤
      KStar.kstar update * KStar.kstar (again * KStar.kstar update) := by
  have extended : again ≤ again * KStar.kstar update := by
    calc
      again = again * 1 := (mul_one again).symm
      _ ≤ again * KStar.kstar update := mul_le_mul_right one_le_kstar again
  calc
    _ ≤ KStar.kstar update *
        (KStar.kstar (again * KStar.kstar update) * (again * KStar.kstar update)) := by
      rw [mul_assoc]
      gcongr
    _ ≤ KStar.kstar update * KStar.kstar (again * KStar.kstar update) := by
      gcongr
      exact kstar_mul_le_kstar

theorem active_word : activeWord.matches' =
    (char .open).matches' * (KStar.kstar (char .update).matches' *
      KStar.kstar (reopening.matches' * KStar.kstar (char .update).matches')) := rfl

theorem reopening_word : [.resolve, .reopen] ∈ reopening.matches' :=
  ⟨[.resolve], rfl, [.reopen], rfl, rfl⟩

theorem active_open : [TransitionStatus.open] ∈ activeWord.matches' := by
  have rest : [] ∈ (updates * RegularExpression.star (reopening * updates)).matches' :=
    ⟨[], Language.nil_mem_kstar _, [], Language.nil_mem_kstar _, rfl⟩
  exact ⟨[.open], rfl, [], rest, rfl⟩

theorem active_update {word : List TransitionStatus} (active : word ∈ activeWord.matches') :
    word ++ [.update] ∈ activeWord.matches' := by
  have absorbed : activeWord.matches' * (char .update).matches' ≤ activeWord.matches' := by
    rw [active_word, mul_assoc]
    exact mul_le_mul_right (kstar_round _ _) _
  exact absorbed ⟨word, active, [.update], rfl, rfl⟩

theorem active_reopen {word : List TransitionStatus} (active : word ∈ activeWord.matches') :
    word ++ [.resolve] ++ [.reopen] ∈ activeWord.matches' := by
  have absorbed : activeWord.matches' * reopening.matches' ≤ activeWord.matches' := by
    rw [active_word, mul_assoc]
    exact mul_le_mul_right (kstar_again _ _) _
  rw [List.append_assoc]
  exact absorbed ⟨word, active, [.resolve, .reopen], reopening_word, rfl⟩

theorem incident_active {word : List TransitionStatus} (active : word ∈ activeWord.matches') :
    word ∈ incidentWord.matches' :=
  ⟨word, active, [], Or.inl rfl, List.append_nil word⟩

theorem incident_ended {word : List TransitionStatus} (active : word ∈ activeWord.matches') :
    word ++ [.resolve] ∈ incidentWord.matches' :=
  ⟨word, active, [.resolve], Or.inr rfl, rfl⟩

end word

/-! Incidents: blocks of transitions with one incident ID. -/

/-- The transitions of one incident, with the device key and episode start behind its ID. -/
structure Episode where
  deviceKey : String
  startMs : Int64
  transitions : List Transition

namespace Episode

variable (rule : PortScanRule)

def statuses (e : Episode) : List TransitionStatus := e.transitions.map Transition.status

structure Numbered (e : Episode) : Prop where
  revisions : e.transitions.map Transition.revision = List.range' 1 e.transitions.length
  same : ∀ t ∈ e.transitions,
    t.incidentId = rule.incidentId e.deviceKey e.startMs ∧ t.episodeStartMs = e.startMs

def Running (e : Episode) : Prop := e.statuses ∈ activeWord.matches'

def Ended (e : Episode) : Prop :=
  ∃ word ∈ activeWord.matches', e.statuses = word ++ [.resolve]

def extend (e : Episode) (t : Transition) : Episode :=
  { e with transitions := e.transitions ++ [t] }

theorem statuses_extend (e : Episode) (t : Transition) :
    (e.extend t).statuses = e.statuses ++ [t.status] := List.map_append

variable {rule}

theorem Numbered.extend {e : Episode} (numbered : e.Numbered rule) {t : Transition}
    (incidentId : t.incidentId = rule.incidentId e.deviceKey e.startMs)
    (start : t.episodeStartMs = e.startMs) (revision : t.revision = e.transitions.length + 1) :
    (e.extend t).Numbered rule := by
  constructor
  · have length : (e.transitions ++ [t]).length = e.transitions.length + 1 := List.length_append
    simp only [Episode.extend, List.map_append, numbered.revisions, length, List.range'_1_concat,
      List.map_cons, List.map_nil, revision, Nat.add_comm]
  · intro other member
    rcases List.mem_append.mp member with old | new
    · exact numbered.same other old
    · rw [List.mem_singleton.mp new]
      exact ⟨incidentId, start⟩

theorem Numbered.ids_nodup {e : Episode} (numbered : e.Numbered rule) :
    (e.transitions.map Transition.transitionId).Nodup := by
  have ids : e.transitions.map Transition.transitionId =
      (e.transitions.map Transition.revision).map
        (fun revision => rule.incidentId e.deviceKey e.startMs ++ ":" ++ toString revision) := by
    rw [List.map_map]
    apply List.map_congr_left
    intro t member
    rw [Transition.transitionId, (numbered.same t member).1]
    rfl
  rw [ids, numbered.revisions]
  apply List.Nodup.map
  · intro first second same
    exact Decimal.toString_nat_injective
      (Decimal.append_separator_injective (Decimal.colon_free first)
        (Decimal.colon_free second) same).2
  · exact List.nodup_range'

theorem Numbered.mem_id {e : Episode} (numbered : e.Numbered rule) {t : Transition}
    (member : t ∈ e.transitions) : t.transitionId =
      rule.incidentId e.deviceKey e.startMs ++ ":" ++ toString t.revision := by
  rw [Transition.transitionId, (numbered.same t member).1]

end Episode

/-- The statement of the incidents in a sequence of blocks. -/
structure Incidents (rule : PortScanRule) (episodes : List Episode) : Prop where
  numbered : ∀ e ∈ episodes, e.Numbered rule
  words : ∀ e ∈ episodes, e.statuses ∈ incidentWord.matches'
  ended : ∀ e ∈ episodes.dropLast, e.statuses.getLast? = some .resolve
  rising : episodes.Pairwise fun earlier later => earlier.startMs < later.startMs

theorem episodes_nodup {rule : PortScanRule} {episodes : List Episode}
    (numbered : ∀ e ∈ episodes, e.Numbered rule)
    (differ : episodes.Pairwise fun earlier later =>
      ¬ (earlier.deviceKey = later.deviceKey ∧ earlier.startMs = later.startMs))
    (distinct : Function.Injective2 rule.incidentId) :
    ((episodes.flatMap Episode.transitions).map Transition.transitionId).Nodup := by
  rw [List.map_flatMap, List.nodup_flatMap]
  constructor
  · intro e member
    exact (numbered e member).ids_nodup
  · apply differ.imp_of_mem
    intro first second firstMember secondMember apart id here there
    obtain ⟨t, held, rfl⟩ := List.mem_map.mp here
    obtain ⟨other, otherHeld, same⟩ := List.mem_map.mp there
    rw [(numbered first firstMember).mem_id held,
      (numbered second secondMember).mem_id otherHeld] at same
    obtain ⟨keys, starts⟩ := distinct (Decimal.append_separator_injective (Decimal.colon_free _)
      (Decimal.colon_free _) same).1
    exact apart ⟨keys.symm, starts.symm⟩

theorem Incidents.ids_nodup {rule : PortScanRule} {episodes : List Episode}
    (incidents : Incidents rule episodes) (distinct : Function.Injective2 rule.incidentId) :
    ((episodes.flatMap Episode.transitions).map Transition.transitionId).Nodup := by
  apply episodes_nodup incidents.numbered _ distinct
  apply incidents.rising.imp
  rintro earlier later order ⟨-, starts⟩
  exact Int64.lt_irrefl (starts ▸ order)

private theorem neg_le_zero (a : Int64) (nonneg : 0 ≤ a) : -a ≤ 0 := by
  rw [Int64.le_iff_toInt_le] at nonneg ⊢
  rw [Int64.toInt_neg]
  have bound := a.toInt_lt
  have zero : (0 : Int64).toInt = 0 := rfl
  rw [zero] at nonneg ⊢
  rw [Int.bmod_eq_of_le] <;> omega

/-! The rule state tells the story of the incidents reported so far. -/

/-- The clock when the incident was resolved, and the silence that resolved it. -/
def ResolvedSince (s : RuleState) (startMs : Int64) : Prop :=
  ∃ clockMs silence : Int64, startMs ≤ clockMs ∧ clockMs ≤ s.clockMs ∧ 0 ≤ silence ∧
    s.resolvedAtMs = clockMs + silence

structure Story (rule : PortScanRule) (s : RuleState) (earlier : List Episode) (last : Episode) :
    Prop where
  past : ∀ e ∈ earlier, e.Numbered rule ∧ e.Ended
  numbered : last.Numbered rule
  rising : (earlier ++ [last]).Pairwise fun earlier later => earlier.startMs < later.startMs
  incidentId : s.incidentId = rule.incidentId last.deviceKey last.startMs
  episodeStart : s.episodeStartMs = last.startMs
  revision : s.revision = last.transitions.length
  started : last.startMs ≤ s.clockMs
  stage : (s.status = .active ∧ last.Running) ∨
    (s.status = .resolved ∧ last.Ended ∧ ResolvedSince s last.startMs)

/-- Nothing was reported of a fresh state; otherwise the last incident is the state's. -/
def Told (rule : PortScanRule) (s : RuleState) (episodes : List Episode) : Prop :=
  (s.status = .none ∧ episodes = []) ∨
    ∃ earlier last, episodes = earlier ++ [last] ∧ Story rule s earlier last

namespace Story

variable {rule : PortScanRule} {s : RuleState} {earlier : List Episode} {last : Episode}

theorem rising_extend (story : Story rule s earlier last) (t : Transition) :
    (earlier ++ [last.extend t]).Pairwise fun earlier later => earlier.startMs < later.startMs := by
  have rising := story.rising
  rw [List.pairwise_append] at rising ⊢
  refine ⟨rising.1, List.pairwise_singleton _ _, ?_⟩
  intro e member other single
  rw [List.mem_singleton.mp single]
  exact rising.2.2 e member last (List.mem_singleton_self _)

theorem received (story : Story rule s earlier last) (set : ViewSet) (nowMs : Int64) :
    Story rule (PortScanRule.received s set nowMs) earlier last := by
  obtain ⟨short, long, clockMs, clockWallMs, forward, fields⟩ :=
    PortScanRule.received_fields s set nowMs
  rw [fields]
  constructor
  · exact story.past
  · exact story.numbered
  · exact story.rising
  · exact story.incidentId
  · exact story.episodeStart
  · exact story.revision
  · exact Int64.le_trans story.started forward
  · rcases story.stage with running | ⟨resolved, ended, clock, silence, after, before, rest⟩
    · exact Or.inl running
    · exact Or.inr ⟨resolved, ended, clock, silence, after, Int64.le_trans before forward, rest⟩

theorem revision_extend (story : Story rule s earlier last) (t : Transition) :
    s.revision + 1 = (last.extend t).transitions.length := by
  have length : (last.extend t).transitions.length = last.transitions.length + 1 :=
    List.length_append
  rw [length, story.revision]

theorem kept (story : Story rule s earlier last) (clockMs : Int64) :
    Story rule (rule.kept s clockMs) earlier last where
  past := story.past
  numbered := story.numbered
  rising := story.rising
  incidentId := story.incidentId
  episodeStart := story.episodeStart
  revision := story.revision
  started := story.started
  stage := story.stage

theorem running (story : Story rule s earlier last) (active : s.status = .active) :
    last.Running := by
  rcases story.stage with ⟨-, running⟩ | ⟨resolved, -⟩
  · exact running
  · rw [active] at resolved
    cases resolved

theorem ended (story : Story rule s earlier last) (inactive : s.status ≠ .active) :
    s.status = .resolved ∧ last.Ended ∧ ResolvedSince s last.startMs := by
  rcases story.stage with ⟨active, -⟩ | ended
  · exact absurd active inactive
  · exact ended

theorem updated (story : Story rule s earlier last) (active : s.status = .active)
    (clockMs ingestMs nowMs : Int64) :
    Story rule (rule.updated s clockMs) earlier
      (last.extend (rule.transition (rule.updated s clockMs) .update clockMs ingestMs nowMs)) where
  past := story.past
  numbered := story.numbered.extend story.incidentId story.episodeStart
    (congrArg (· + 1) story.revision)
  rising := story.rising_extend _
  incidentId := story.incidentId
  episodeStart := story.episodeStart
  revision := story.revision_extend _
  started := story.started
  stage := by
    refine Or.inl ⟨active, ?_⟩
    rw [Episode.Running, Episode.statuses_extend]
    exact active_update (story.running active)

theorem resolved (story : Story rule s earlier last) (active : s.status = .active)
    (clockMs ingestMs nowMs silence : Int64) (nonneg : 0 ≤ silence)
    (clock : clockMs = s.clockMs + silence) :
    Story rule (rule.resolved s clockMs) earlier
      (last.extend (rule.transition (rule.resolved s clockMs) .resolve clockMs ingestMs nowMs)) where
  past := story.past
  numbered := story.numbered.extend story.incidentId story.episodeStart
    (congrArg (· + 1) story.revision)
  rising := story.rising_extend _
  incidentId := story.incidentId
  episodeStart := story.episodeStart
  revision := story.revision_extend _
  started := story.started
  stage := by
    refine Or.inr ⟨rfl, ⟨last.statuses, story.running active, last.statuses_extend _⟩, ?_⟩
    exact ⟨s.clockMs, silence, story.started, Int64.le_refl _, nonneg, clock⟩

theorem reopened (story : Story rule s earlier last) (inactive : s.status ≠ .active)
    (clockMs ingestMs nowMs : Int64) :
    Story rule (rule.reopened s) earlier
      (last.extend (rule.transition (rule.reopened s) .reopen clockMs ingestMs nowMs)) where
  past := story.past
  numbered := story.numbered.extend story.incidentId story.episodeStart
    (congrArg (· + 1) story.revision)
  rising := story.rising_extend _
  incidentId := story.incidentId
  episodeStart := story.episodeStart
  revision := story.revision_extend _
  started := story.started
  stage := by
    obtain ⟨-, ⟨word, active, statuses⟩, -⟩ := story.ended inactive
    refine Or.inl ⟨rfl, ?_⟩
    rw [Episode.Running, Episode.statuses_extend, statuses]
    exact active_reopen active

/-- A new incident starts only when the clock of the views has passed the resolve. -/
theorem later_start (story : Story rule s earlier last) (inactive : s.status ≠ .active)
    (valid : rule.config.Valid) (cooled : ¬ rule.Cooling s s.clockMs) :
    last.startMs < s.clockMs := by
  obtain ⟨resolved, -, clockMs, silence, after, before, nonneg, since⟩ := story.ended inactive
  have moved : clockMs ≠ s.clockMs := by
    intro same
    apply cooled
    refine ⟨resolved, ?_⟩
    have elapsed : s.clockMs - s.resolvedAtMs = -silence := by
      rw [since, same]
      grind
    rw [elapsed]
    exact Int64.lt_of_le_of_lt (neg_le_zero silence nonneg) valid.cooldown
  exact Int64.lt_of_le_of_lt after (Int64.lt_of_le_of_ne before moved)

end Story

/-- A block of one opening transition. -/
def Episode.opened (rule : PortScanRule) (s : RuleState) (ingestMs nowMs : Int64) : Episode :=
  ⟨s.deviceKey, s.clockMs,
    [rule.transition (rule.opened s s.clockMs) .open s.clockMs ingestMs nowMs]⟩

section opened

variable {rule : PortScanRule} {s : RuleState}

theorem opened_story (ingestMs nowMs : Int64) (earlier : List Episode)
    (past : ∀ e ∈ earlier, e.Numbered rule ∧ e.Ended)
    (rising : (earlier ++ [Episode.opened rule s ingestMs nowMs]).Pairwise
      fun earlier later => earlier.startMs < later.startMs) :
    Story rule (rule.opened s s.clockMs) earlier (Episode.opened rule s ingestMs nowMs) where
  past := past
  numbered := by
    refine ⟨rfl, ?_⟩
    intro t member
    rw [List.mem_singleton.mp member]
    exact ⟨rfl, rfl⟩
  rising := rising
  incidentId := rfl
  episodeStart := rfl
  revision := rfl
  started := Int64.le_refl _
  stage := Or.inl ⟨rfl, active_open⟩

theorem Told.opened {episodes : List Episode} (told : Told rule s episodes)
    (valid : rule.config.Valid) (inactive : s.status ≠ .active)
    (cooled : ¬ rule.Cooling s s.clockMs) (ingestMs nowMs : Int64) :
    Story rule (rule.opened s s.clockMs) episodes (Episode.opened rule s ingestMs nowMs) := by
  rcases told with ⟨-, rfl⟩ | ⟨earlier, last, rfl, story⟩
  · exact opened_story ingestMs nowMs [] (by simp) (List.pairwise_singleton _ _)
  · apply opened_story
    · intro e member
      rcases List.mem_append.mp member with old | new
      · exact story.past e old
      · rw [List.mem_singleton.mp new]
        exact ⟨story.numbered, (story.ended inactive).2.1⟩
    · rw [List.pairwise_append]
      refine ⟨story.rising, List.pairwise_singleton _ _, ?_⟩
      intro e member other single
      rw [List.mem_singleton.mp single]
      have latest := story.later_start inactive valid cooled
      rcases List.mem_append.mp member with old | new
      · have order := (List.pairwise_append.mp story.rising).2.2 e old last
          (List.mem_singleton_self _)
        exact Int64.lt_trans order latest
      · rw [List.mem_singleton.mp new]
        exact latest

end opened

theorem flatMap_extend (earlier : List Episode) (last : Episode) (t : Transition) :
    (earlier ++ [last.extend t]).flatMap Episode.transitions =
      (earlier ++ [last]).flatMap Episode.transitions ++ [t] := by
  simp [Episode.extend]

/-- One evaluation adds what it emits to the incidents told. -/
theorem Told.evaluate {rule : PortScanRule} {s : RuleState} {episodes : List Episode}
    (told : Told rule s episodes) (valid : rule.config.Valid)
    (clockMs ingestMs nowMs silence : Int64) (nonneg : 0 ≤ silence)
    (clock : clockMs = s.clockMs + silence)
    (viewed : s.status ≠ .active → rule.overMask s ≠ 0 → clockMs = s.clockMs) :
    ∃ longer, Told rule (rule.evaluate s clockMs ingestMs nowMs).1 longer ∧
      longer.flatMap Episode.transitions = episodes.flatMap Episode.transitions ++
        (rule.evaluate s clockMs ingestMs nowMs).2 := by
  by_cases active : s.status = .active
  · rcases told with ⟨fresh, -⟩ | ⟨earlier, last, rfl, story⟩
    · rw [active] at fresh
      cases fresh
    · by_cases settled : rule.Settled s clockMs
      · rw [rule.evaluate_resolve s clockMs ingestMs nowMs active settled]
        have next := story.resolved active clockMs ingestMs nowMs silence nonneg clock
        exact ⟨_, Or.inr ⟨_, _, rfl, next⟩, flatMap_extend _ _ _⟩
      · by_cases changed : rule.Changed s
        · rw [rule.evaluate_update s clockMs ingestMs nowMs active settled changed]
          have next := story.updated active clockMs ingestMs nowMs
          exact ⟨_, Or.inr ⟨_, _, rfl, next⟩, flatMap_extend _ _ _⟩
        · rw [rule.evaluate_unchanged s clockMs ingestMs nowMs active settled changed]
          exact ⟨_, Or.inr ⟨_, _, rfl, story.kept clockMs⟩, (List.append_nil _).symm⟩
  · by_cases quiet : rule.overMask s = 0
    · rw [rule.evaluate_quiet s clockMs ingestMs nowMs active quiet]
      exact ⟨episodes, told, (List.append_nil _).symm⟩
    · have fromViews := viewed active quiet
      subst fromViews
      by_cases cooling : rule.Cooling s s.clockMs
      · rw [rule.evaluate_reopen s s.clockMs ingestMs nowMs quiet cooling]
        rcases told with ⟨fresh, -⟩ | ⟨earlier, last, rfl, story⟩
        · rw [cooling.1] at fresh
          cases fresh
        · have next := story.reopened active s.clockMs ingestMs nowMs
          exact ⟨_, Or.inr ⟨_, _, rfl, next⟩, flatMap_extend _ _ _⟩
      · rw [rule.evaluate_open s s.clockMs ingestMs nowMs active quiet cooling]
        have next := told.opened valid active cooling ingestMs nowMs
        refine ⟨_, Or.inr ⟨_, _, rfl, next⟩, ?_⟩
        rw [List.flatMap_append, List.flatMap_singleton]
        rfl

/-- Nothing is over threshold while no incident is active. -/
def Quiet (rule : PortScanRule) (s : RuleState) : Prop :=
  s.status ≠ .active → rule.overMask s = 0

theorem evaluate_leaves_quiet (rule : PortScanRule) (bounded : rule.config.Bounded) (s : RuleState)
    (clockMs ingestMs nowMs : Int64) :
    Quiet rule (rule.evaluate s clockMs ingestMs nowMs).1 := by
  by_cases active : s.status = .active
  · by_cases settled : rule.Settled s clockMs
    · rw [rule.evaluate_resolve s clockMs ingestMs nowMs active settled]
      exact fun _ => rule.clear_overMask s bounded settled.1
    · by_cases changed : rule.Changed s
      · rw [rule.evaluate_update s clockMs ingestMs nowMs active settled changed]
        exact fun inactive => absurd active inactive
      · rw [rule.evaluate_unchanged s clockMs ingestMs nowMs active settled changed]
        exact fun inactive => absurd active inactive
  · by_cases quiet : rule.overMask s = 0
    · rw [rule.evaluate_quiet s clockMs ingestMs nowMs active quiet]
      exact fun _ => quiet
    · by_cases cooling : rule.Cooling s clockMs
      · rw [rule.evaluate_reopen s clockMs ingestMs nowMs quiet cooling]
        exact fun inactive => absurd rfl inactive
      · rw [rule.evaluate_open s clockMs ingestMs nowMs active quiet cooling]
        exact fun inactive => absurd rfl inactive

theorem evaluate_starts (rule : PortScanRule) (s : RuleState) (quiet : Quiet rule s)
    (clockMs ingestMs nowMs : Int64) :
    ∀ t ∈ (rule.evaluate s clockMs ingestMs nowMs).2, t.status ≠ .open ∧ t.status ≠ .reopen := by
  intro t member
  by_cases active : s.status = .active
  · by_cases settled : rule.Settled s clockMs
    · rw [rule.evaluate_resolve s clockMs ingestMs nowMs active settled] at member
      rw [List.mem_singleton.mp member]
      exact ⟨TransitionStatus.noConfusion, TransitionStatus.noConfusion⟩
    · by_cases changed : rule.Changed s
      · rw [rule.evaluate_update s clockMs ingestMs nowMs active settled changed] at member
        rw [List.mem_singleton.mp member]
        exact ⟨TransitionStatus.noConfusion, TransitionStatus.noConfusion⟩
      · rw [rule.evaluate_unchanged s clockMs ingestMs nowMs active settled changed] at member
        cases member
  · rw [rule.evaluate_quiet s clockMs ingestMs nowMs active (quiet active)] at member
    cases member

namespace RuleCall

def isOnViews : RuleCall → Bool
  | onViews _ _ => true
  | onClock _ => false

end RuleCall

theorem Told.received {rule : PortScanRule} {s : RuleState} {episodes : List Episode}
    (told : Told rule s episodes) (set : ViewSet) (nowMs : Int64) :
    Told rule (PortScanRule.received s set nowMs) episodes := by
  rcases told with ⟨fresh, none⟩ | ⟨earlier, last, same, story⟩
  · obtain ⟨short, long, clockMs, clockWallMs, -, fields⟩ :=
      PortScanRule.received_fields s set nowMs
    rw [fields]
    exact Or.inl ⟨fresh, none⟩
  · exact Or.inr ⟨earlier, last, same, story.received set nowMs⟩

namespace PortScanRule

variable (rule : PortScanRule)

theorem apply_quiet (bounded : rule.config.Bounded) (s : RuleState) (call : RuleCall)
    (quiet : Quiet rule s) : Quiet rule (rule.apply s call).1 := by
  cases call with
  | onViews set nowMs => exact evaluate_leaves_quiet rule bounded _ _ _ _
  | onClock nowMs =>
      simp only [apply, onClock]
      split
      · exact quiet
      · exact evaluate_leaves_quiet rule bounded _ _ _ _

theorem apply_told (valid : rule.config.Valid) (s : RuleState) (call : RuleCall)
    {episodes : List Episode} (told : Told rule s episodes) (quiet : Quiet rule s) :
    ∃ longer, Told rule (rule.apply s call).1 longer ∧ longer.flatMap Episode.transitions =
      episodes.flatMap Episode.transitions ++ (rule.apply s call).2 := by
  cases call with
  | onViews set nowMs =>
      exact (told.received set nowMs).evaluate valid (received s set nowMs).clockMs
        set.ingest nowMs 0 (by decide) (Int64.add_zero _).symm (fun _ _ => rfl)
  | onClock nowMs =>
      simp only [apply, onClock]
      split
      · exact ⟨episodes, told, (List.append_nil _).symm⟩
      · have nonneg : 0 ≤ mathMax 0 (nowMs - s.clockWallMs) := le_mathMax_left _ _
        exact told.evaluate valid (s.silentClock nowMs) 0 nowMs
          (mathMax 0 (nowMs - s.clockWallMs)) nonneg rfl
          (fun inactive mask => absurd (quiet inactive) mask)

theorem outputs_told (valid : rule.config.Valid) (calls : List RuleCall) (s : RuleState)
    {episodes : List Episode} (told : Told rule s episodes) (quiet : Quiet rule s) :
    ∃ final longer, Told rule final longer ∧ longer.flatMap Episode.transitions =
      episodes.flatMap Episode.transitions ++ (rule.outputs s calls).flatMap Prod.snd := by
  induction calls generalizing s episodes with
  | nil => exact ⟨s, episodes, told, (List.append_nil _).symm⟩
  | cons call calls ih =>
      obtain ⟨longer, nextTold, emits⟩ := rule.apply_told valid s call told quiet
      obtain ⟨final, longest, finalTold, all⟩ := ih _ nextTold (rule.apply_quiet valid.bounded s call quiet)
      refine ⟨final, longest, finalTold, ?_⟩
      rw [all, emits, outputs, List.flatMap_cons, List.append_assoc]

theorem outputs_starts (valid : rule.config.Valid) (calls : List RuleCall) (s : RuleState)
    (quiet : Quiet rule s) :
    ∀ entry ∈ rule.outputs s calls, ∀ t ∈ entry.2,
      t.status = .open ∨ t.status = .reopen → entry.1.isOnViews := by
  induction calls generalizing s with
  | nil => simp [outputs]
  | cons call calls ih =>
      intro entry member
      rcases List.mem_cons.mp member with rfl | later
      · cases call with
        | onViews set nowMs => exact fun _ _ _ => rfl
        | onClock nowMs =>
            intro t held starts
            simp only [apply, onClock] at held
            split at held
            · cases held
            · obtain ⟨notOpen, notReopen⟩ := evaluate_starts rule s quiet _ _ _ t held
              rcases starts with opens | reopens
              · exact absurd opens notOpen
              · exact absurd reopens notReopen
      · exact ih _ (rule.apply_quiet valid.bounded s call quiet) entry later

end PortScanRule

theorem Episode.Ended.getLast {e : Episode} (ended : e.Ended) : e.statuses.getLast? = some .resolve := by
  obtain ⟨word, -, statuses⟩ := ended
  rw [statuses, List.getLast?_append_of_ne_nil _ (List.cons_ne_nil _ _)]
  rfl

theorem Episode.Ended.word {e : Episode} (ended : e.Ended) : e.statuses ∈ incidentWord.matches' := by
  obtain ⟨word, active, statuses⟩ := ended
  rw [statuses]
  exact incident_ended active

theorem Told.incidents {rule : PortScanRule} {s : RuleState} {episodes : List Episode}
    (told : Told rule s episodes) : Incidents rule episodes := by
  rcases told with ⟨-, rfl⟩ | ⟨earlier, last, rfl, story⟩
  · constructor <;> simp
  · constructor
    · intro e member
      rcases List.mem_append.mp member with old | new
      · exact (story.past e old).1
      · rw [List.mem_singleton.mp new]
        exact story.numbered
    · intro e member
      rcases List.mem_append.mp member with old | new
      · exact (story.past e old).2.word
      · rw [List.mem_singleton.mp new]
        rcases story.stage with ⟨-, running⟩ | ⟨-, ended, -⟩
        · exact incident_active running
        · exact ended.word
    · intro e member
      rw [List.dropLast_concat] at member
      exact (story.past e member).2.getLast
    · exact story.rising

/-- Over any run of one rule state the transitions form incidents with rising starts, their IDs
are distinct, and only new views open or reopen an incident. -/
theorem transitions_form_incidents (rule : PortScanRule) (valid : rule.config.Valid)
    (distinct : Function.Injective2 rule.incidentId) (calls : List RuleCall) :
    (∃ episodes, rule.emitted calls = episodes.flatMap Episode.transitions ∧
      Incidents rule episodes) ∧
    ((rule.emitted calls).map Transition.transitionId).Nodup ∧
    ∀ entry ∈ rule.outputs .new calls, ∀ t ∈ entry.2,
      t.status = .open ∨ t.status = .reopen → entry.1.isOnViews := by
  have quiet : Quiet rule .new := fun _ => rule.new_overMask valid.bounded
  have told : Told rule .new [] := Or.inl ⟨rfl, rfl⟩
  obtain ⟨final, episodes, finalTold, emits⟩ := rule.outputs_told valid calls .new told quiet
  have incidents := finalTold.incidents
  refine ⟨⟨episodes, emits.symm, incidents⟩, ?_, rule.outputs_starts valid calls .new quiet⟩
  have ids := incidents.ids_nodup distinct
  rw [emits] at ids
  exact ids

theorem PortScanRule.incidentId_injective (rule : PortScanRule)
    (injective : Function.Injective rule.digest) : Function.Injective2 rule.incidentId := by
  intro key other start otherStart same
  obtain ⟨keys, starts⟩ := Decimal.append_separator_injective (Decimal.bar_free start.toInt)
    (Decimal.bar_free otherStart.toInt) (injective same)
  rw [String.append_left_inj, String.append_left_inj] at keys
  exact ⟨keys, Decimal.toString_int64_injective starts⟩

def probeKey : String := "gw:02:00:00:00:00:0a"

/-- The SHA-256 prefixes of two incidents of the probed device; other texts stand for theirs. -/
def probeDigest (text : String) : String :=
  if text = probeKey ++ "|port_scan|1000" then "448a11ef6c62bed4533b416c1bea9772"
  else if text = probeKey ++ "|port_scan|500000" then "d9ca8912cbd16865d01e02827495361a"
  else "+" ++ text

theorem probe_digest_injective : Function.Injective probeDigest := by
  have marked : ∀ text digest : String, digest.toList.head? ≠ some '+' → "+" ++ text ≠ digest := by
    intro text digest head same
    rw [← same, String.toList_append] at head
    exact head rfl
  intro first second same
  unfold probeDigest at same
  split at same
  · next one =>
      split at same
      · next other => rw [one, other]
      · split at same
        · exact absurd same (by decide)
        · exact absurd same.symm (marked _ _ (by decide))
  · split at same
    · next one =>
        split at same
        · exact absurd same (by decide)
        · split at same
          · next other => rw [one, other]
          · exact absurd same.symm (marked _ _ (by decide))
    · split at same
      · exact absurd same (marked _ _ (by decide))
      · split at same
        · exact absurd same (marked _ _ (by decide))
        · exact (String.append_right_inj _).mp same

def probeRule : PortScanRule := ⟨.v1, probeDigest⟩

def probeView (horizonSeconds : Int32) (windowEndMs : Int64) (failed : Int32) : View :=
  ⟨probeKey, horizonSeconds, windowEndMs, failed, 0, 1, failed, failed, "gw/0", windowEndMs, []⟩

def probeViews (windowEndMs : Int64) (failed : Int32) : RuleCall :=
  .onViews ⟨probeKey, windowEndMs, [probeView 60 windowEndMs failed,
    probeView 900 windowEndMs failed]⟩ windowEndMs

/-- A scan that falls silent, comes back within the cooldown, and once more after it. -/
def probeCalls : List RuleCall :=
  [probeViews 1000 20, probeViews 2000 0, .onClock 62000, probeViews 70000 25,
    probeViews 80000 45, probeViews 90000 0, .onClock 150000, probeViews 500000 20]

theorem v1_valid : Config.v1.Valid := by
  refine ⟨?_, by decide, by decide⟩
  intro threshold member
  rcases List.mem_cons.mp member with rfl | member
  · decide
  · rw [List.mem_singleton.mp member]
    decide

theorem transitions_form_incidents_probe :
    (probeRule.emitted probeCalls).map Transition.status =
        [.open, .update, .resolve, .reopen, .update, .update, .resolve, .open] ∧
      (∃ episodes, probeRule.emitted probeCalls = episodes.flatMap Episode.transitions ∧
        Incidents probeRule episodes) ∧
      ((probeRule.emitted probeCalls).map Transition.transitionId).Nodup ∧
      ∀ entry ∈ probeRule.outputs .new probeCalls, ∀ t ∈ entry.2,
        t.status = .open ∨ t.status = .reopen → entry.1.isOnViews :=
  ⟨by decide, transitions_form_incidents probeRule v1_valid
    (probeRule.incidentId_injective probe_digest_injective) probeCalls⟩

end PiAgents.Detection
