import PiAgents.Detection.IncidentWord
import PiAgents.Detection.Replay

/-! The evidence times of an opened incident: they are taken from the device clock and from the
newest flows, which are those of the flow that completes the evidence only if it is not late. -/

namespace PiAgents.Detection

/-- A flow as it arrives, and the wall time then. -/
structure FlowAt where
  record : FlowRecord
  nowMs : Int64

/-- The windows of a device and the rule that sees their views after every flow. -/
structure EvidenceRun where
  rule : PortScanRule
  deviceKey : String
  windows : DeviceWindows
  state : RuleState

namespace EvidenceRun

def start (rule : PortScanRule) (deviceKey : String) (horizonsMs : List Int64) : EvidenceRun :=
  ⟨rule, deviceKey, .new horizonsMs, .new⟩

def added (run : EvidenceRun) (arrival : FlowAt) : DeviceWindows :=
  run.windows.add arrival.record

/-- The views of all horizons after the flow. -/
def set (run : EvidenceRun) (arrival : FlowAt) : ViewSet :=
  ⟨run.deviceKey, (run.added arrival).clockMs, (run.added arrival).views run.deviceKey⟩

def call (run : EvidenceRun) (arrival : FlowAt) : RuleState × List Transition :=
  run.rule.onViews run.state (run.set arrival) arrival.nowMs

def step (run : EvidenceRun) (arrival : FlowAt) : EvidenceRun :=
  { run with windows := run.added arrival, state := (run.call arrival).1 }

/-- The rule state that the flow's views are evaluated in. -/
def viewed (run : EvidenceRun) (arrival : FlowAt) : RuleState :=
  PortScanRule.received run.state (run.set arrival) arrival.nowMs

/-- The flow brings a horizon to its threshold. One that is not positive is reached without flows. -/
def Completes (run : EvidenceRun) (arrival : FlowAt) : Prop :=
  ∃ entry ∈ run.rule.config.openThresholds.zipIdx, 0 < entry.1 ∧
    ¬ entry.1 ≤ run.state.value entry.2 ∧ entry.1 ≤ (run.viewed arrival).value entry.2

/-- The evidence times of the transition are those of the flow. -/
def Attributes (t : Transition) (record : FlowRecord) : Prop :=
  t.evidenceEventTimeMs = record.eventTimeMs ∧ t.evidenceIngestTimeMs = record.ingestTimeMs

instance (t : Transition) (record : FlowRecord) : Decidable (Attributes t record) :=
  inferInstanceAs (Decidable (_ ∧ _))

end EvidenceRun

namespace DeviceWindows

/-- What the horizons hold lies in the window behind the clock. -/
structure Covering (w : DeviceWindows) : Prop where
  tracked : w.Tracked
  held : ∀ h ∈ w.horizons, ∀ c ∈ h.contributions,
    w.clockMs - h.lengthMs < c.eventTimeMs ∧ c.eventTimeMs ≤ w.clockMs

theorem covering_new (horizonsMs : List Int64) : (new horizonsMs).Covering := by
  constructor
  · intro h member
    rcases List.mem_map.mp member with ⟨length, _, rfl⟩
    exact Horizon.new_tracks length
  · intro h member c inside
    rcases List.mem_map.mp member with ⟨length, _, rfl⟩
    cases inside

theorem Covering.advance {w : DeviceWindows} (covering : w.Covering) (clockMs : Int64) :
    (w.advanceTo clockMs).1.Covering := by
  by_cases past : clockMs ≤ w.clockMs
  · rw [w.advance_past clockMs past]
    exact covering
  · refine ⟨w.advance_tracked clockMs covering.tracked, ?_⟩
    have newer := Int64.not_le.mp past
    rw [w.advance_newer clockMs newer]
    intro expired member c inside
    rcases List.mem_map.mp member with ⟨h, held, rfl⟩
    rw [h.expire_contributions (covering.tracked h held)] at inside
    rcases List.mem_filter.mp inside with ⟨wasHeld, left'⟩
    have after : ¬ c.eventTimeMs ≤ clockMs - h.lengthMs := by
      intro old
      rw [decide_eq_true old] at left'
      cases left'
    have before := (covering.held h held c wasHeld).2
    rw [h.expire_length]
    exact ⟨Int64.not_le.mp after, Int64.le_of_lt (Int64.lt_of_le_of_lt before newer)⟩

theorem add_clock_eq (w : DeviceWindows) (record : FlowRecord) :
    (w.add record).clockMs = mathMax w.clockMs record.eventTimeMs := by
  apply Int64.toInt_inj.mp
  rw [w.add_clock record, mathMax_toInt]

theorem advance_clock_max (w : DeviceWindows) (record : FlowRecord) :
    (w.advanceTo (mathMax w.clockMs record.eventTimeMs)).1.clockMs =
      mathMax w.clockMs record.eventTimeMs := w.add_clock_eq record

theorem mem_add {w : DeviceWindows} {record : FlowRecord} {joined : Horizon}
    (member : joined ∈ (w.add record).horizons) :
    ∃ h ∈ (w.advanceTo (mathMax w.clockMs record.eventTimeMs)).1.horizons, joined =
      if mathMax w.clockMs record.eventTimeMs - h.lengthMs < record.eventTimeMs then
        h.add (Contribution.of record) else h := by
  rcases List.mem_map.mp member with ⟨h, inside, same⟩
  refine ⟨h, inside, ?_⟩
  change (if (w.advanceTo (mathMax w.clockMs record.eventTimeMs)).1.clockMs - h.lengthMs <
    record.eventTimeMs then h.add (Contribution.of record) else h) = joined at same
  rw [w.advance_clock_max record] at same
  exact same.symm

theorem Covering.add {w : DeviceWindows} (covering : w.Covering) (record : FlowRecord) :
    (w.add record).Covering := by
  have base := covering.advance (mathMax w.clockMs record.eventTimeMs)
  have clock := w.advance_clock_max record
  refine ⟨w.add_tracked record covering.tracked, ?_⟩
  rw [w.add_clock_eq record]
  intro joined member c inside
  rcases mem_add member with ⟨h, held, rfl⟩
  have old := base.held h held
  rw [clock] at old
  by_cases covers : mathMax w.clockMs record.eventTimeMs - h.lengthMs < record.eventTimeMs
  · rw [if_pos covers] at inside ⊢
    rw [h.add_contributions] at inside
    rcases List.mem_cons.mp ((StableOrder.insertLast_perm earlier _ _).mem_iff.mp inside) with
      rfl | wasHeld
    · exact ⟨covers, le_mathMax_right _ _⟩
    · exact old c wasHeld
  · rw [if_neg covers] at inside ⊢
    exact old c inside

theorem Covering.newest {w : DeviceWindows} (covering : w.Covering) {record : FlowRecord}
    (timely : w.clockMs ≤ record.eventTimeMs) :
    ∀ joined ∈ (w.add record).horizons, joined.contributions = [] ∨
      joined.contributions.getLast? = some (Contribution.of record) := by
  have clock : mathMax w.clockMs record.eventTimeMs = record.eventTimeMs := if_pos timely
  have base := covering.advance (mathMax w.clockMs record.eventTimeMs)
  have reached := w.advance_clock_max record
  rw [clock] at base reached
  intro joined member
  rcases mem_add member with ⟨h, held, rfl⟩
  rw [clock] at held ⊢
  have old := base.held h held
  rw [reached] at old
  by_cases covers : record.eventTimeMs - h.lengthMs < record.eventTimeMs
  · right
    have last : ∀ b ∈ h.contributions.getLast?, earlier b (Contribution.of record) :=
      fun b isLast => (old b (List.mem_of_getLast? isLast)).2
    rw [if_pos covers, h.add_contributions, StableOrder.insertLast_of_last earlier _ _ last,
      List.getLast?_concat]
  · left
    rw [if_neg covers]
    apply List.eq_nil_iff_forall_not_mem.mpr
    intro c inside
    have window := old c inside
    exact covers (Int64.lt_of_lt_of_le window.1 window.2)

end DeviceWindows

/-! The newest ingest time among views. -/

section Ingest

variable (views : List View) (first : Int64)

private theorem ingest_bounds :
    first ≤ views.foldl (fun a v => mathMax a v.latestIngestTimeMs) first ∧
    ∀ v ∈ views, v.latestIngestTimeMs ≤
      views.foldl (fun a v => mathMax a v.latestIngestTimeMs) first := by
  induction views generalizing first with
  | nil => simp
  | cons v rest ih =>
      have later := ih (mathMax first v.latestIngestTimeMs)
      constructor
      · exact Int64.le_trans (le_mathMax_left _ _) later.1
      · intro other member
        rcases List.mem_cons.mp member with rfl | inRest
        · exact Int64.le_trans (le_mathMax_right _ _) later.1
        · exact later.2 other inRest

private theorem ingest_le {bound : Int64} (start : first ≤ bound)
    (below : ∀ v ∈ views, v.latestIngestTimeMs ≤ bound) :
    views.foldl (fun a v => mathMax a v.latestIngestTimeMs) first ≤ bound := by
  induction views generalizing first with
  | nil => exact start
  | cons v rest ih =>
      apply ih
      · change mathMax first v.latestIngestTimeMs ≤ bound
        unfold mathMax
        split
        · exact below v List.mem_cons_self
        · exact start
      · exact fun other member => below other (List.mem_cons_of_mem _ member)

theorem ViewSet.ingest_eq (set : ViewSet) (ingestMs : Int64)
    (each : ∀ v ∈ set.views.take 2, v.latestIngestTimeMs = 0 ∨ v.latestIngestTimeMs = ingestMs)
    (shown : ∃ v ∈ set.views.take 2, v.latestIngestTimeMs = ingestMs) :
    set.ingest = mathMax 0 ingestMs := by
  have bounds := ingest_bounds (set.views.take 2) 0
  apply Int64.le_antisymm
  · apply ingest_le _ _ (le_mathMax_left 0 ingestMs)
    intro v member
    rcases each v member with zero | same
    · rw [zero]
      exact le_mathMax_left 0 ingestMs
    · rw [same]
      exact le_mathMax_right 0 ingestMs
  · rcases shown with ⟨v, member, same⟩
    have reached := bounds.2 v member
    rw [same] at reached
    rw [mathMax]
    split
    · exact reached
    · exact bounds.1

end Ingest

theorem RuleState.setViews_view (s : RuleState) (views : List View) :
    (s.setViews views).shortView = views[0]?.or s.shortView ∧
      (s.setViews views).longView = views[1]?.or s.longView := by
  cases views with
  | nil => exact ⟨rfl, rfl⟩
  | cons short rest =>
      cases rest with
      | nil => exact ⟨rfl, rfl⟩
      | cons long others => exact ⟨rfl, rfl⟩

theorem received_views (s : RuleState) (set : ViewSet) (nowMs : Int64) :
    (PortScanRule.received s set nowMs).shortView = set.views[0]?.or s.shortView ∧
      (PortScanRule.received s set nowMs).longView = set.views[1]?.or s.longView := by
  rw [PortScanRule.received]
  split
  · exact s.setViews_view set.views
  · exact s.setViews_view set.views

theorem received_clockMs (s : RuleState) (set : ViewSet) (nowMs : Int64) :
    (PortScanRule.received s set nowMs).clockMs = mathMax s.clockMs set.windowEndMs := by
  rcases RuleState.set_views_loop (set.views.take 2).zipIdx s with ⟨short, long, views⟩
  rw [PortScanRule.received, RuleState.setViews, views, mathMax]
  by_cases newer : s.clockMs < set.windowEndMs
  · simp only [newer, if_true, Int64.le_of_lt newer]
  · by_cases equal : s.clockMs ≤ set.windowEndMs
    · simp only [newer, if_false, equal, if_true]
      exact Int64.le_antisymm equal (Int64.not_lt.mp newer)
    · simp only [newer, if_false, equal]

theorem received_status (s : RuleState) (set : ViewSet) (nowMs : Int64) :
    (PortScanRule.received s set nowMs).status = s.status := by
  rcases PortScanRule.received_fields s set nowMs with ⟨_, _, _, _, _, fields⟩
  rw [fields]

theorem evaluate_opens (rule : PortScanRule) (s : RuleState) (clockMs ingestMs nowMs : Int64)
    {t : Transition} (member : t ∈ (rule.evaluate s clockMs ingestMs nowMs).2)
    (opens : t.status = .open) : s.status ≠ .active ∧ rule.overMask s ≠ 0 ∧
      t.evidenceEventTimeMs = clockMs ∧ t.evidenceIngestTimeMs = ingestMs := by
  have other : ∀ (s : RuleState) (status : TransitionStatus), status ≠ .open →
      t ∉ [rule.transition s status clockMs ingestMs nowMs] := by
    intro s status differs inside
    rw [List.mem_singleton.mp inside] at opens
    exact differs opens
  by_cases active : s.status = .active
  · by_cases settled : rule.Settled s clockMs
    · rw [rule.evaluate_resolve s clockMs ingestMs nowMs active settled] at member
      exact absurd member (other _ _ TransitionStatus.noConfusion)
    · by_cases changed : rule.Changed s
      · rw [rule.evaluate_update s clockMs ingestMs nowMs active settled changed] at member
        exact absurd member (other _ _ TransitionStatus.noConfusion)
      · rw [rule.evaluate_unchanged s clockMs ingestMs nowMs active settled changed] at member
        cases member
  · by_cases quiet : rule.overMask s = 0
    · rw [rule.evaluate_quiet s clockMs ingestMs nowMs active quiet] at member
      cases member
    · by_cases cooling : rule.Cooling s clockMs
      · rw [rule.evaluate_reopen s clockMs ingestMs nowMs quiet cooling] at member
        exact absurd member (other _ _ TransitionStatus.noConfusion)
      · rw [rule.evaluate_open s clockMs ingestMs nowMs active quiet cooling] at member
        rw [List.mem_singleton.mp member]
        exact ⟨active, quiet, rfl, rfl⟩

namespace EvidenceRun

/-- What holds of the run between two flows. -/
structure Fed (run : EvidenceRun) : Prop where
  covering : run.windows.Covering
  clock : run.state.clockMs = run.windows.clockMs
  short : run.windows.horizons = [] → run.state.shortView = none
  long : run.windows.horizons.length ≤ 1 → run.state.longView = none
  quiet : run.rule.config.Bounded → Quiet run.rule run.state

theorem fed_start (rule : PortScanRule) (deviceKey : String) (horizonsMs : List Int64) :
    (start rule deviceKey horizonsMs).Fed where
  covering := DeviceWindows.covering_new horizonsMs
  clock := rfl
  short _ := rfl
  long _ := rfl
  quiet bounded _ := rule.new_overMask bounded

variable {run : EvidenceRun}

theorem added_length (run : EvidenceRun) (arrival : FlowAt) :
    (run.added arrival).horizons.length = run.windows.horizons.length := by
  have lengths := congrArg List.length (run.windows.add_lengths arrival.record)
  rw [List.length_map, List.length_map] at lengths
  exact lengths

theorem set_views (run : EvidenceRun) (arrival : FlowAt) : (run.set arrival).views =
    (run.added arrival).horizons.map fun h =>
      h.view run.deviceKey (run.added arrival).clockMs := rfl

theorem viewed_clock (fed : run.Fed) (arrival : FlowAt) :
    (run.viewed arrival).clockMs = (run.added arrival).clockMs := by
  have added : (run.added arrival).clockMs =
      mathMax run.windows.clockMs arrival.record.eventTimeMs :=
    run.windows.add_clock_eq arrival.record
  have set : (run.set arrival).windowEndMs = (run.added arrival).clockMs := rfl
  rw [viewed, received_clockMs, fed.clock, set, added]
  apply Int64.toInt_inj.mp
  rw [mathMax_toInt, mathMax_toInt]
  omega

theorem viewed_mem (fed : run.Fed) (arrival : FlowAt) {i : Nat} {v : View}
    (shown : (run.viewed arrival).view i = some v) : v ∈ (run.set arrival).views.take 2 := by
  have views := received_views run.state (run.set arrival) arrival.nowMs
  have length : (run.set arrival).views.length = run.windows.horizons.length := by
    rw [set_views, List.length_map, added_length]
  rw [RuleState.view] at shown
  split at shown
  · rw [viewed, views.1] at shown
    cases listed : (run.set arrival).views with
    | nil =>
        rw [listed] at shown length
        have none' := fed.short (List.length_eq_zero_iff.mp length.symm)
        rw [none'] at shown
        cases shown
    | cons first rest =>
        rw [listed] at shown
        cases shown
        exact List.mem_cons_self
  · rw [viewed, views.2] at shown
    cases listed : (run.set arrival).views with
    | nil =>
        rw [listed] at shown length
        have none' := fed.long (Nat.le_of_eq length.symm |>.trans (Nat.zero_le 1))
        rw [none'] at shown
        cases shown
    | cons first rest =>
        cases later : rest with
        | nil =>
            rw [listed, later] at shown length
            have none' := fed.long (Nat.le_of_eq length.symm)
            rw [none'] at shown
            cases shown
        | cons second others =>
            rw [listed, later] at shown
            cases shown
            exact List.mem_cons_of_mem _ List.mem_cons_self

theorem step_fed (fed : run.Fed) (arrival : FlowAt) : (run.step arrival).Fed := by
  have evaluated : (run.step arrival).state = (run.rule.evaluate (run.viewed arrival)
      (run.viewed arrival).clockMs (run.set arrival).ingest arrival.nowMs).1 := rfl
  have kept := run.rule.evaluate_keeps (run.viewed arrival) (run.viewed arrival).clockMs
    (run.set arrival).ingest arrival.nowMs
  constructor
  · exact fed.covering.add arrival.record
  · rw [evaluated, kept.2.2]
    exact viewed_clock fed arrival
  · intro empty
    rw [evaluated, kept.1]
    cases shown : (run.viewed arrival).shortView with
    | none => rfl
    | some v =>
        have first : (run.viewed arrival).view 0 = some v := shown
        have member := viewed_mem fed arrival first
        have nothing : (run.set arrival).views = [] := congrArg (List.map _) empty
        rw [nothing] at member
        cases member
  · intro few
    have before : run.windows.horizons.length ≤ 1 := by
      rw [← added_length run arrival]
      exact few
    have views := received_views run.state (run.set arrival) arrival.nowMs
    have none' : (run.set arrival).views[1]? = none := by
      apply List.getElem?_eq_none
      rw [set_views, List.length_map, added_length]
      exact before
    rw [evaluated, kept.2.1, viewed, views.2, none', fed.long before]
    rfl
  · intro bounded
    rw [evaluated]
    exact evaluate_leaves_quiet run.rule bounded _ _ _ _

theorem run_fed (fed : run.Fed) (arrivals : List FlowAt) : (Runs.run step run arrivals).Fed := by
  induction arrivals generalizing run with
  | nil => exact fed
  | cons arrival rest ih => exact ih (step_fed fed arrival)

theorem run_rule (run : EvidenceRun) (arrivals : List FlowAt) :
    (Runs.run step run arrivals).rule = run.rule := by
  induction arrivals generalizing run with
  | nil => rfl
  | cons arrival rest ih => exact ih (run.step arrival)

theorem shown_of_reached (fed : run.Fed) (arrival : FlowAt) {threshold : Float} {i : Nat}
    (positive : 0 < threshold) (reached : threshold ≤ (run.viewed arrival).value i) :
    ∃ v ∈ (run.set arrival).views.take 2, v.failedTargets ≠ 0 := by
  cases shown : (run.viewed arrival).view i with
  | none =>
      rw [RuleState.value, shown] at reached
      exact absurd reached (Binary64.not_le_zero_of_pos threshold positive)
  | some v =>
      refine ⟨v, viewed_mem fed arrival shown, ?_⟩
      intro zero
      rw [RuleState.value, shown] at reached
      change threshold ≤ Binary64.ofInt32 v.failedTargets at reached
      rw [zero] at reached
      exact Binary64.not_le_zero_of_pos threshold positive reached

theorem timely_views (fed : run.Fed) (arrival : FlowAt)
    (timely : run.windows.clockMs ≤ arrival.record.eventTimeMs) :
    ∀ v ∈ (run.set arrival).views, v.failedTargets = 0 ∧ v.latestIngestTimeMs = 0 ∨
      v.latestIngestTimeMs = arrival.record.ingestTimeMs := by
  intro v member
  rcases List.mem_map.mp member with ⟨h, held, rfl⟩
  rcases fed.covering.newest timely h held with empty | last
  · left
    have tracks := run.windows.add_tracked arrival.record fed.covering.tracked h held
    have counted := tracks.failedTargets
    rw [empty] at counted
    refine ⟨counted, ?_⟩
    change (h.contributions.getLast?.map Contribution.ingestTimeMs).getD 0 = 0
    rw [empty]
    rfl
  · right
    change (h.contributions.getLast?.map Contribution.ingestTimeMs).getD 0 = _
    rw [last]
    rfl

theorem ingest_of_completes (fed : run.Fed) (arrival : FlowAt)
    (timely : run.windows.clockMs ≤ arrival.record.eventTimeMs)
    (completes : run.Completes arrival) :
    (run.set arrival).ingest = mathMax 0 arrival.record.ingestTimeMs := by
  rcases completes with ⟨entry, _, positive, _, reached⟩
  have views := timely_views fed arrival timely
  apply ViewSet.ingest_eq
  · intro v member
    rcases views v (List.mem_of_mem_take member) with ⟨_, zero⟩ | same
    · exact Or.inl zero
    · exact Or.inr same
  · rcases shown_of_reached fed arrival positive reached with ⟨v, member, counts⟩
    rcases views v (List.mem_of_mem_take member) with ⟨nothing, _⟩ | same
    · exact absurd nothing counts
    · exact ⟨v, member, same⟩

theorem attributes_iff (fed : run.Fed) (arrival : FlowAt) {t : Transition}
    (event : t.evidenceEventTimeMs = (run.added arrival).clockMs)
    (ingest : t.evidenceIngestTimeMs = (run.set arrival).ingest)
    (completes : run.Completes arrival) :
    Attributes t arrival.record ↔
      run.windows.clockMs ≤ arrival.record.eventTimeMs ∧ 0 ≤ arrival.record.ingestTimeMs := by
  have clock : (run.added arrival).clockMs =
      mathMax run.windows.clockMs arrival.record.eventTimeMs :=
    run.windows.add_clock_eq arrival.record
  have larger : ∀ a b : Int64, mathMax a b = b ↔ a ≤ b := by
    intro a b
    rw [← Int64.toInt_inj, mathMax_toInt, Int64.le_iff_toInt_le]
    omega
  rw [Attributes, event, ingest, clock, larger]
  apply and_congr_right
  intro timely
  rw [ingest_of_completes fed arrival timely completes, larger]

/-- The flow that opens an incident is the one that completes the evidence. -/
theorem completes_of_opens (fed : run.Fed) (arrival : FlowAt) (bounded : run.rule.config.Bounded)
    (inactive : (run.viewed arrival).status ≠ .active)
    (opened : run.rule.overMask (run.viewed arrival) ≠ 0) : run.Completes arrival := by
  have status := received_status run.state (run.set arrival) arrival.nowMs
  have wasInactive : run.state.status ≠ .active := by
    rw [← status]
    exact inactive
  have before := (run.rule.overMask_eq_zero run.state).mp (fed.quiet bounded wasInactive)
  by_contra never
  apply opened
  rw [run.rule.overMask_eq_zero]
  intro entry member reached
  have positive := bounded.thresholds entry.1 (List.fst_mem_of_mem_zipIdx member)
  exact never ⟨entry, member, positive, before entry member, reached⟩

end EvidenceRun

/-- In a run from fresh windows and a fresh rule, with any flows in any order: an incident opened
with a flow has the times of that flow as evidence, the flow being the one that brings a horizon to
its threshold, exactly if the flow is not behind the device clock and its ingest time is not
negative. Under positive thresholds and a clear fraction below one it is always that flow. -/
theorem evidence_attribution (rule : PortScanRule) (deviceKey : String) (horizonsMs : List Int64)
    (arrivals : List FlowAt) (last : FlowAt) (t : Transition)
    (emitted : t ∈ ((Runs.run EvidenceRun.step (.start rule deviceKey horizonsMs) arrivals).call
      last).2) (opens : t.status = .open) :
    let run := Runs.run EvidenceRun.step (.start rule deviceKey horizonsMs) arrivals
    (rule.config.Bounded → run.Completes last) ∧
      (run.Completes last → (EvidenceRun.Attributes t last.record ↔
        run.windows.clockMs ≤ last.record.eventTimeMs ∧ 0 ≤ last.record.ingestTimeMs)) := by
  have start := EvidenceRun.fed_start rule deviceKey horizonsMs
  have fed := EvidenceRun.run_fed start arrivals
  have same := EvidenceRun.run_rule (.start rule deviceKey horizonsMs) arrivals
  intro run
  have opened := evaluate_opens run.rule (run.viewed last) (run.viewed last).clockMs
    (run.set last).ingest last.nowMs emitted opens
  have event := opened.2.2.1
  rw [EvidenceRun.viewed_clock fed last] at event
  constructor
  · intro bounded
    have bounded' : run.rule.config.Bounded := by
      rw [same]
      exact bounded
    exact EvidenceRun.completes_of_opens fed last bounded' opened.1 opened.2.1
  · exact EvidenceRun.attributes_iff fed last event opened.2.2.2

/-- Unanswered attempts on 19 ports, 200 ms apart. -/
def probeOf (number : Nat) (eventTimeMs ingestTimeMs : Int64) : FlowAt :=
  ⟨⟨"gw/" ++ toString number, probeKey, eventTimeMs, ingestTimeMs, "192.0.2.1",
    Int32.ofNat (1000 + number), 6, outcomeUnanswered, 60, 0⟩, ingestTimeMs⟩

def probes : List FlowAt :=
  (List.range 19).map fun i =>
    probeOf i (100000 + 200 * Int64.ofNat i) (100003 + 200 * Int64.ofNat i)

def probed : EvidenceRun :=
  Runs.run EvidenceRun.step (.start probeRule probeKey [60000, 900000]) probes

/-- The attempt on a 20th port, in order, and a second before the last one. -/
def timelyProbe : FlowAt := probeOf 19 103800 103900

def lateProbe : FlowAt := probeOf 19 102600 103900

theorem evidence_attribution_probe : ∃ t ∈ (probed.call timelyProbe).2, t.status = .open ∧
    (probeRule.config.Bounded → probed.Completes timelyProbe) ∧
      (probed.Completes timelyProbe → (EvidenceRun.Attributes t timelyProbe.record ↔
        probed.windows.clockMs ≤ timelyProbe.record.eventTimeMs ∧
          0 ≤ timelyProbe.record.ingestTimeMs)) := by
  have opens : (probed.call timelyProbe).2.map Transition.status = [.open] := by decide +kernel
  rcases List.map_eq_cons_iff.mp opens with ⟨t, rest, whole, status, _⟩
  have emitted : t ∈ (probed.call timelyProbe).2 := by
    rw [whole]
    exact List.mem_cons_self
  exact ⟨t, emitted, status, evidence_attribution probeRule probeKey [60000, 900000] probes
    timelyProbe t emitted status⟩

/-- The late attempt completes the evidence, which has the times of the attempt before it. -/
theorem evidence_of_late_probe : probed.Completes lateProbe ∧
    ∃ t ∈ (probed.call lateProbe).2, t.status = .open ∧
      ¬ EvidenceRun.Attributes t lateProbe.record := by
  constructor
  · have member : ((20 : Float), 0) ∈ probed.rule.config.openThresholds.zipIdx := List.mem_cons_self
    refine ⟨(20, 0), member, by decide, ?_⟩
    decide +kernel
  · have opens : (probed.call lateProbe).2.map (fun t => (t.status, t.evidenceEventTimeMs)) =
        [(.open, 103600)] := by decide +kernel
    rcases List.map_eq_cons_iff.mp opens with ⟨t, rest, whole, shown, _⟩
    refine ⟨t, ?_, congrArg Prod.fst shown, ?_⟩
    · rw [whole]
      exact List.mem_cons_self
    · intro attributes
      have event : t.evidenceEventTimeMs = 103600 := congrArg Prod.snd shown
      have late : (103600 : Int64) = 102600 := event.symm.trans attributes.1
      exact absurd late (by decide)

end PiAgents.Detection
