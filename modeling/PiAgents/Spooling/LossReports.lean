import PiAgents.Lib.Runs
import PiAgents.Spooling.Forwarding
import PiAgents.Spooling.Losses

/-! Loss reports over runs: every number that is dropped is counted, and told of by the latest report
unless the append of that report dropped it. -/

namespace PiAgents.Spooling

open Forwarder (sendLoop)

structure Appended where
  event : Spool.Event
  seq : Nat
  total : Option Loss
  gone : List Nat

def Appended.record (a : Appended) : Entry := a.event.entry a.seq

def Forwarder.reportAppends (f : Forwarder) (loss : Loss) (nowMs : Int64) : List Appended :=
  let total := Loss.addTo f.cumulativeLoss loss
  match (f.count loss).append (lossReport f.gatewayId total nowMs) with
  | none => []
  | some (after, seq, _) =>
      [⟨lossReport f.gatewayId total nowMs, seq, some total, f.spool.gone after.spool⟩]

def Forwarder.submitAppends (f : Forwarder) (event : Spool.Event) (nowMs : Int64) :
    List Appended :=
  match f.append event with
  | none => []
  | some (after, seq, loss) =>
      ⟨event, seq, none, f.spool.gone after.spool⟩ ::
        loss.toList.flatMap fun loss => after.reportAppends loss nowMs

structure LossRun where
  forwarder : Option Forwarder
  present : List Entry
  appended : List Appended

namespace LossRun

def start (gatewayId : String) (config : SpoolConfig) (disk : Disk) : LossRun where
  forwarder := (Spool.open config disk).2.map fun spool =>
    .new gatewayId (disk.applyAll (Spool.open config disk).1) spool
  present := (disk.applyAll (Spool.open config disk).1).entries
  appended := []

def written (h : LossRun) : List Entry := h.present ++ h.appended.map Appended.record

def gone (h : LossRun) : List Nat := h.appended.flatMap (·.gone)

/-- The latest report: its total, and the numbers that its own append dropped. -/
def latest (h : LossRun) : Option (Loss × List Nat) :=
  (h.appended.filterMap fun a => a.total.map fun total => (total, a.gone)).getLast?

def submitted (h : LossRun) (appends : List Appended) : Option (Forwarder × Nat) → LossRun
  | none => { h with forwarder := none }
  | some (after, _) => { h with forwarder := some after, appended := h.appended ++ appends }

def step (h : LossRun) (event : ForwardStep) : LossRun :=
  match h.forwarder with
  | none => h
  | some f =>
      match event with
      | .submitFlow record nowMs =>
          h.submitted (f.submitAppends (flowEvent f.gatewayId record nowMs) nowMs)
            (f.submitFlow record nowMs)
      | .submitHealth component kind count sequences eventTimesMs detail nowMs =>
          h.submitted
            (f.submitAppends (healthEvent f.gatewayId component kind count sequences eventTimesMs
              detail nowMs) nowMs)
            (f.submitHealth component kind count sequences eventTimesMs detail nowMs)
      | .pump budget reports answers =>
          { h with forwarder := some (f.pump budget reports answers).1 }
      | .sync => { h with forwarder := some f.sync }

/-- The time range of a loss holds the event times of these numbers. -/
def Spans (h : LossRun) (total : Loss) (numbers : List Nat) : Prop :=
  ∀ seq ∈ numbers, ∀ entry ∈ h.written, entry.seq = seq →
    total.firstEventTimeMs ≤ entry.eventTimeMs ∧ entry.eventTimeMs ≤ total.lastEventTimeMs

/-- No loss is silent: the latest report tells of all. -/
structure Told (h : LossRun) : Prop where
  lost : ∀ f, h.forwarder = some f → f.stats.lost = h.gone.length
  reported : h.latest = none → h.gone = []
  count : ∀ f, h.forwarder = some f → ∀ report, h.latest = some report →
    report.1.count = f.stats.lost
  range : ∀ report, h.latest = some report →
    ∀ seq ∈ h.gone, report.1.firstSeq ≤ seq ∧ seq ≤ report.1.lastSeq
  times : ∀ report, h.latest = some report → h.Spans report.1 h.gone

/-- A loss tells of all that was dropped but these numbers, and its times of all that the appends
of events dropped. -/
structure Covers (h : LossRun) (total : Loss) (own : List Nat) : Prop where
  count : total.count + own.length = h.gone.length
  range : ∀ seq ∈ h.gone, seq ∈ own ∨ total.firstSeq ≤ seq ∧ seq ≤ total.lastSeq
  times : ∀ a ∈ h.appended, a.total = none → h.Spans total a.gone

/-- What holds of the reports by design: a report does not tell of what its own append drops. -/
structure Tells (h : LossRun) : Prop where
  lost : ∀ f, h.forwarder = some f → f.stats.lost = h.gone.length
  reported : h.latest = none → h.gone = []
  covers : ∀ report, h.latest = some report → h.Covers report.1 report.2

def adding (h : LossRun) (a : Appended) : LossRun := { h with appended := h.appended ++ [a] }

section Adding

variable {h : LossRun} {a : Appended}

theorem written_adding : (h.adding a).written = h.written ++ [a.record] := by
  rw [written, adding, List.map_append, ← List.append_assoc]
  rfl

theorem gone_adding : (h.adding a).gone = h.gone ++ a.gone := by
  rw [gone, adding, List.flatMap_append, List.flatMap_singleton]
  rfl

theorem latest_event (event : a.total = none) : (h.adding a).latest = h.latest := by
  rw [latest, adding, List.filterMap_append, List.filterMap_cons, event, Option.map_none,
    List.filterMap_nil, List.append_nil]
  rfl

theorem latest_report {total : Loss} (report : a.total = some total) :
    (h.adding a).latest = some (total, a.gone) := by
  rw [latest, adding, List.filterMap_append, List.filterMap_cons, report, Option.map_some,
    List.filterMap_nil]
  exact List.getLast?_concat

theorem Spans.adding {total : Loss} {numbers : List Nat} (spans : h.Spans total numbers)
    (apart : ∀ seq ∈ numbers, seq ≠ a.seq) : (h.adding a).Spans total numbers := by
  intro seq member entry there same
  rw [written_adding] at there
  rcases List.mem_append.mp there with was | new
  · exact spans seq member entry was same
  · rw [List.mem_singleton.mp new] at same
    exact absurd same.symm (apart seq member)

theorem Spans.wider {total wide : Loss} {numbers : List Nat} (spans : h.Spans total numbers)
    (earlier : wide.firstEventTimeMs ≤ total.firstEventTimeMs)
    (later : total.lastEventTimeMs ≤ wide.lastEventTimeMs) : h.Spans wide numbers := by
  intro seq member entry there same
  have within := spans seq member entry there same
  exact ⟨Int64.le_trans earlier within.1, Int64.le_trans within.2 later⟩

end Adding

/-- The files hold the records, and what was dropped is behind all that waits. -/
structure Placed (h : LossRun) (f : Forwarder) : Prop where
  logged : Logged h.written f.disk f.spool
  numbered : (h.written.map (·.seq)).Nodup
  below : ∀ entry ∈ h.written, entry.seq < f.spool.nextSeq
  dropped : ∀ seq ∈ h.gone, seq < f.spool.nextSeq
  passed : ∀ seq ∈ h.gone, ∀ p ∈ f.spool.waiting, seq < p

section Appending

variable {h : LossRun} {f after : Forwarder} {event : Spool.Event} {number : Nat}
  {loss : Option Loss}

theorem gone_waited {seq : Nat} (member : seq ∈ f.spool.gone after.spool) :
    seq ∈ f.spool.waiting := List.mem_of_mem_filter member

theorem Placed.append (placed : Placed h f)
    (given : f.append event = some (after, number, loss)) (total : Option Loss) :
    Placed (h.adding ⟨event, number, total, f.spool.gone after.spool⟩) after ∧
      Loses h.written f after number loss := by
  rcases Forwarder.append_loses placed.logged placed.numbered given with ⟨logged, loses⟩
  have inOrder := placed.logged.inOrder
  have isNext := loses.number
  have next := loses.next
  have sorted : (f.spool.gone after.spool ++ after.spool.waiting).Pairwise (· < ·) := by
    rw [← loses.waiting, List.pairwise_append]
    refine ⟨inOrder.sorted, List.pairwise_singleton _ _, ?_⟩
    intro p waits q isLast
    rw [List.mem_singleton.mp isLast]
    exact inOrder.below p waits
  have waited : ∀ p ∈ after.spool.waiting, p ∈ f.spool.waiting ∨ p = f.spool.nextSeq := by
    intro p waits
    have inWhole : p ∈ f.spool.waiting ++ [f.spool.nextSeq] := by
      rw [loses.waiting]
      exact List.mem_append_right _ waits
    exact (List.mem_append.mp inWhole).imp_right List.mem_singleton.mp
  refine ⟨⟨?_, ?_, ?_, ?_, ?_⟩, loses⟩
  · rw [written_adding]
    exact logged
  · rw [written_adding, List.map_append, List.nodup_append]
    refine ⟨placed.numbered, List.nodup_singleton _, ?_⟩
    intro seq was other new
    rcases List.mem_map.mp was with ⟨entry, there, rfl⟩
    have same : other = number := List.mem_singleton.mp new
    have below := placed.below entry there
    omega
  · rw [written_adding]
    intro entry there
    rcases List.mem_append.mp there with was | new
    · have below := placed.below entry was
      omega
    · have same : entry.seq = number := congrArg Entry.seq (List.mem_singleton.mp new)
      omega
  · rw [gone_adding]
    intro seq member
    rcases List.mem_append.mp member with was | now
    · have below := placed.dropped seq was
      omega
    · have below := inOrder.below seq (gone_waited now)
      omega
  · rw [gone_adding]
    intro seq member p waits
    rcases List.mem_append.mp member with was | now
    · rcases waited p waits with before | isNew
      · exact placed.passed seq was p before
      · rw [isNew]
        exact placed.dropped seq was
    · exact (List.pairwise_append.mp sorted).2.2 seq now p waits

end Appending

/-! What a loss that covers what was dropped has to become when more is dropped. -/

section Covering

variable {h : LossRun} {total l : Loss} {own : List Nat} {a : Appended}

/-- The numbers dropped so far are not the one of the new record. -/
def Apart (h : LossRun) (a : Appended) : Prop := ∀ seq ∈ h.gone ++ a.gone, seq ≠ a.seq

theorem gone_of_appended {b : Appended} (member : b ∈ h.appended) {seq : Nat}
    (gone : seq ∈ b.gone) : seq ∈ h.gone := List.mem_flatMap.mpr ⟨b, member, gone⟩

theorem Covers.times_adding (covers : h.Covers total own) (apart : h.Apart a) :
    ∀ b ∈ h.appended, b.total = none → (h.adding a).Spans total b.gone := by
  intro b member event
  apply (covers.times b member event).adding
  intro seq gone
  exact apart seq (List.mem_append_left _ (gone_of_appended member gone))

theorem Covers.quiet (covers : h.Covers total own) (apart : h.Apart a) (nothing : a.gone = []) :
    (h.adding a).Covers total own := by
  have same : (h.adding a).gone = h.gone := by
    rw [gone_adding, nothing, List.append_nil]
  refine ⟨?_, ?_, ?_⟩
  · rw [same, covers.count]
  · rw [same]
    exact covers.range
  · intro b member event
    rcases List.mem_append.mp member with was | new
    · exact covers.times_adding apart b was event
    · rw [List.mem_singleton.mp new, nothing]
      intro seq absent
      cases absent

/-- A loss of an event's append that tells of what it dropped. -/
structure TellsOf (h : LossRun) (l : Loss) (gone : List Nat) : Prop where
  count : l.count = gone.length
  range : ∀ seq ∈ gone, l.firstSeq ≤ seq ∧ seq ≤ l.lastSeq
  times : h.Spans l gone

theorem Covers.first (nothing : h.gone = []) (tells : h.TellsOf l a.gone) (apart : h.Apart a) :
    (h.adding a).Covers l [] := by
  have same : (h.adding a).gone = a.gone := by
    rw [gone_adding, nothing, List.nil_append]
  refine ⟨?_, ?_, ?_⟩
  · rw [same, tells.count, List.length_nil, Nat.add_zero]
  · rw [same]
    exact fun seq member => Or.inr (tells.range seq member)
  · intro b member event
    rcases List.mem_append.mp member with was | new
    · intro seq gone
      have absent := gone_of_appended was gone
      rw [nothing] at absent
      cases absent
    · rw [List.mem_singleton.mp new]
      exact tells.times.adding fun seq gone => apart seq (List.mem_append_right _ gone)

theorem Covers.merge (covers : h.Covers total []) (tells : h.TellsOf l a.gone)
    (apart : h.Apart a) : (h.adding a).Covers (total.merge l) [] := by
  refine ⟨?_, ?_, ?_⟩
  · rw [gone_adding, List.length_append, ← tells.count, ← covers.count]
    exact Nat.add_right_comm ..
  · rw [gone_adding]
    intro seq member
    right
    change min total.firstSeq l.firstSeq ≤ seq ∧ seq ≤ max total.lastSeq l.lastSeq
    rcases List.mem_append.mp member with was | now
    · have within := (covers.range seq was).resolve_left List.not_mem_nil
      omega
    · have within := tells.range seq now
      omega
  · intro b member event
    rcases List.mem_append.mp member with was | new
    · exact (covers.times_adding apart b was event).wider Std.min_le_left (time_le_max_left _ _)
    · rw [List.mem_singleton.mp new]
      have spans : (h.adding a).Spans l a.gone :=
        tells.times.adding fun seq gone => apart seq (List.mem_append_right _ gone)
      exact spans.wider Std.min_le_right (time_le_max_right _ _)

theorem Covers.report (covers : h.Covers total []) (apart : h.Apart a)
    (report : a.total = some total) : (h.adding a).Covers total a.gone := by
  refine ⟨?_, ?_, ?_⟩
  · rw [gone_adding, List.length_append, ← covers.count, List.length_nil, Nat.add_zero]
  · rw [gone_adding]
    intro seq member
    rcases List.mem_append.mp member with was | now
    · exact Or.inr ((covers.range seq was).resolve_left List.not_mem_nil)
    · exact Or.inl now
  · intro b member event
    rcases List.mem_append.mp member with was | new
    · exact covers.times_adding apart b was event
    · rw [List.mem_singleton.mp new, report] at event
      cases event

/-- The totals take the nested loss in: what it dropped was behind all dropped before. -/
theorem Covers.nest (covers : h.Covers total []) (some' : h.gone ≠ []) (apart : h.Apart a)
    (report : a.total = some total) (count : l.count = a.gone.length)
    (last : ∀ seq ∈ a.gone, seq ≤ l.lastSeq) (behind : ∀ seq ∈ h.gone, ∀ p ∈ a.gone, seq < p) :
    (h.adding a).Covers (total.nest l) [] := by
  have told := covers.report apart report
  refine ⟨?_, ?_, told.times⟩
  · rw [gone_adding, List.length_append, ← count, ← covers.count]
    exact Nat.add_right_comm ..
  · rw [gone_adding]
    intro seq member
    right
    change total.firstSeq ≤ seq ∧ seq ≤ max total.lastSeq l.lastSeq
    rcases List.mem_append.mp member with was | now
    · have within := (covers.range seq was).resolve_left List.not_mem_nil
      omega
    · rcases List.exists_mem_of_ne_nil _ some' with ⟨old, there⟩
      have first := (covers.range old there).resolve_left List.not_mem_nil
      have less := behind old there seq now
      have upper := last seq now
      omega

end Covering

/-- The totals of a forwarder are those of what was dropped. -/
structure Tallied (h : LossRun) (f : Forwarder) : Prop where
  placed : h.Placed f
  lost : f.stats.lost = h.gone.length
  quiet : f.cumulativeLoss = none → h.gone = []
  covers : ∀ total, f.cumulativeLoss = some total → h.Covers total []

/-- The latest report covers all but what its own append dropped. -/
structure Latest (h : LossRun) : Prop where
  reported : h.latest = none → h.gone = []
  covers : ∀ report, h.latest = some report → h.Covers report.1 report.2

section Submitting

variable {h : LossRun} {f after : Forwarder} {event : Spool.Event} {number : Nat}
  {loss : Option Loss} {nowMs : Int64}

theorem Placed.apart (placed : h.Placed f) (loses : Loses h.written f after number loss)
    (event : Spool.Event) (total : Option Loss) :
    h.Apart ⟨event, number, total, f.spool.gone after.spool⟩ := by
  intro seq member
  have isNext := loses.number
  rcases List.mem_append.mp member with was | now
  · have below := placed.dropped seq was
    change seq ≠ number
    omega
  · have below := placed.logged.inOrder.below seq (gone_waited now)
    change seq ≠ number
    omega

theorem Tallied.quietly (tallied : h.Tallied f) (latest : h.Latest)
    (given : f.append event = some (after, number, none)) :
    Tallied (h.adding ⟨event, number, none, f.spool.gone after.spool⟩) after ∧
      Latest (h.adding ⟨event, number, none, f.spool.gone after.spool⟩) := by
  rcases tallied.placed.append given none with ⟨placed, loses⟩
  have apart := tallied.placed.apart loses event none
  have nothing := loses.nothing rfl
  have same : (h.adding ⟨event, number, none, f.spool.gone after.spool⟩).gone = h.gone := by
    rw [gone_adding]
    exact (congrArg (h.gone ++ ·) nothing).trans (List.append_nil _)
  have totals : after.cumulativeLoss = f.cumulativeLoss := by
    rw [loses.same]
  have stats : after.stats = f.stats := by
    rw [loses.same]
  refine ⟨⟨placed, ?_, ?_, ?_⟩, ?_, ?_⟩
  · rw [stats, same, tallied.lost]
  · rw [totals, same]
    exact tallied.quiet
  · rw [totals]
    exact fun total isTotal => (tallied.covers total isTotal).quiet apart nothing
  · rw [latest_event rfl, same]
    exact latest.reported
  · rw [latest_event rfl]
    exact fun report isLatest => (latest.covers report isLatest).quiet apart nothing

theorem Tallied.counted {l : Loss} (tallied : h.Tallied f)
    (given : f.append event = some (after, number, some l)) :
    Tallied (h.adding ⟨event, number, none, f.spool.gone after.spool⟩) (after.count l) ∧
      (h.adding ⟨event, number, none, f.spool.gone after.spool⟩).gone ≠ [] := by
  rcases tallied.placed.append given none with ⟨placed, loses⟩
  have apart := tallied.placed.apart loses event none
  have tells : h.TellsOf l (f.spool.gone after.spool) :=
    ⟨loses.count l rfl, loses.range l rfl, loses.times l rfl⟩
  have totals : after.cumulativeLoss = f.cumulativeLoss := by
    rw [loses.same]
  have stats : after.stats = f.stats := by
    rw [loses.same]
  refine ⟨⟨⟨placed.logged, placed.numbered, placed.below, placed.dropped, placed.passed⟩, ?_, ?_,
    ?_⟩, ?_⟩
  · change after.stats.lost + l.count = _
    rw [gone_adding, List.length_append, stats, tallied.lost, loses.count l rfl]
  · intro none'
    cases none'
  · intro total isTotal
    have isAdded : Loss.addTo after.cumulativeLoss l = total := Option.some.inj isTotal
    rw [totals] at isAdded
    rw [← isAdded]
    cases before : f.cumulativeLoss with
    | none => exact Covers.first (tallied.quiet before) tells apart
    | some total => exact (tallied.covers total before).merge tells apart
  · rw [gone_adding]
    exact List.append_ne_nil_of_right_ne_nil _ (List.ne_nil_of_mem (loses.first l rfl))

theorem Tallied.reported {total : Loss} (tallied : h.Tallied f) (some' : h.gone ≠ [])
    (isTotal : f.cumulativeLoss = some total)
    (given : f.append event = some (after, number, loss)) :
    Tallied (h.adding ⟨event, number, some total, f.spool.gone after.spool⟩) (after.nested loss) ∧
      Latest (h.adding ⟨event, number, some total, f.spool.gone after.spool⟩) := by
  rcases tallied.placed.append given (some total) with ⟨placed, loses⟩
  have apart := tallied.placed.apart loses event (some total)
  have before := tallied.covers total isTotal
  have behind : ∀ seq ∈ h.gone, ∀ p ∈ f.spool.gone after.spool, seq < p :=
    fun seq was p now => tallied.placed.passed seq was p (gone_waited now)
  have totals : after.cumulativeLoss = some total := by
    rw [loses.same]
    exact isTotal
  have stats : after.stats = f.stats := by
    rw [loses.same]
  constructor
  · have still : Placed (h.adding ⟨event, number, some total, f.spool.gone after.spool⟩)
        (after.nested loss) := by
      have disk := after.nested_disk loss
      have spool := after.nested_spool loss
      refine ⟨?_, placed.numbered, ?_, ?_, ?_⟩
      · rw [disk, spool]
        exact placed.logged
      · rw [spool]
        exact placed.below
      · rw [spool]
        exact placed.dropped
      · rw [spool]
        exact placed.passed
    cases loss with
    | none =>
        have nothing := loses.nothing rfl
        refine ⟨still, ?_, ?_, ?_⟩
        · change after.stats.lost = _
          rw [gone_adding, List.length_append, stats, tallied.lost]
          exact (congrArg (h.gone.length + ·) (congrArg List.length nothing)).symm
        · intro none'
          rw [Forwarder.nested, totals] at none'
          cases none'
        · intro other isOther
          rw [Forwarder.nested, totals] at isOther
          cases isOther
          exact before.quiet apart nothing
    | some l =>
        refine ⟨still, ?_, ?_, ?_⟩
        · change after.stats.lost + l.count = _
          rw [gone_adding, List.length_append, stats, tallied.lost, loses.count l rfl]
        · intro none'
          change after.cumulativeLoss.map _ = none at none'
          rw [totals] at none'
          cases none'
        · intro other isOther
          change after.cumulativeLoss.map _ = some other at isOther
          rw [totals] at isOther
          cases isOther
          exact before.nest some' apart rfl (loses.count l rfl)
            (fun seq member => (loses.range l rfl seq member).2) behind
  · constructor
    · intro none'
      rw [latest_report rfl] at none'
      cases none'
    · intro report isLatest
      rw [latest_report rfl] at isLatest
      cases isLatest
      exact before.report apart rfl

end Submitting

/-! Only the lists of a run are told of, not the forwarder in it. -/

section Moved

variable {h : LossRun} {f : Forwarder} (forwarder : Option Forwarder)

theorem Covers.moved {total : Loss} {own : List Nat} (covers : h.Covers total own) :
    Covers { h with forwarder } total own := ⟨covers.count, covers.range, covers.times⟩

theorem Latest.moved (latest : h.Latest) : Latest { h with forwarder } :=
  ⟨latest.reported, fun report isLatest => (latest.covers report isLatest).moved forwarder⟩

theorem Placed.moved (placed : h.Placed f) : Placed { h with forwarder } f :=
  ⟨placed.logged, placed.numbered, placed.below, placed.dropped, placed.passed⟩

theorem Tallied.moved (tallied : h.Tallied f) : Tallied { h with forwarder } f :=
  ⟨tallied.placed.moved forwarder, tallied.lost, tallied.quiet,
    fun total isTotal => (tallied.covers total isTotal).moved forwarder⟩

end Moved

inductive Steady (h : LossRun) : Prop where
  | stopped (closed : h.forwarder = none) (latest : h.Latest)
  | running {f : Forwarder} (isOpen : h.forwarder = some f) (tallied : h.Tallied f)
      (latest : h.Latest)

theorem steady_start {gatewayId : String} {config : SpoolConfig} {disk : Disk}
    {files : List StoredFile} (recoverable : Recoverable disk files) {spool : Spool}
    (opened : (Spool.open config disk).2 = some spool) :
    (start gatewayId config disk).Steady := by
  rcases Agrees.recovered recoverable opened with ⟨_, log, agrees, _⟩
  rcases Aligned.of_opened recoverable opened with ⟨_, aligned, _⟩
  rcases aligned.entries_sorted with ⟨sorted, below⟩
  have isOpen : (start gatewayId config disk).forwarder =
      some (.new gatewayId (disk.applyAll (Spool.open config disk).1) spool) := by
    rw [start, opened]
    rfl
  have written : (start gatewayId config disk).written =
      (disk.applyAll (Spool.open config disk).1).entries := List.append_nil _
  refine .running isOpen ⟨⟨?_, ?_, ?_, ?_, ?_⟩, rfl, fun _ => rfl, ?_⟩ ⟨fun _ => rfl, ?_⟩
  · rw [written]
    exact .of_agrees agrees
  · rw [written]
    exact sorted.imp fun less => Nat.ne_of_lt less
  · rw [written]
    exact below
  · intro seq member
    cases member
  · intro seq member
    cases member
  · intro total isTotal
    cases isTotal
  · intro report isLatest
    cases isLatest

section Stepping

variable {h : LossRun} {f after : Forwarder} {event : Spool.Event} {nowMs : Int64}

theorem Tallied.submits (tallied : h.Tallied f) (latest : h.Latest) :
    (h.submitted (f.submitAppends event nowMs) (f.submit event nowMs)).Steady := by
  cases given : f.submit event nowMs with
  | none => exact .stopped rfl (latest.moved none)
  | some result =>
      rcases result with ⟨last, number⟩
      rcases Option.bind_eq_some_iff.mp given with ⟨⟨middle, first, loss⟩, appended, rest⟩
      cases loss with
      | none =>
          cases rest
          rcases tallied.quietly latest appended with ⟨after, told⟩
          have appends : f.submitAppends event nowMs =
              [⟨event, first, none, f.spool.gone middle.spool⟩] := by
            rw [Forwarder.submitAppends, appended]
            rfl
          rw [appends]
          exact .running rfl (after.moved (some middle)) (told.moved (some middle))
      | some l =>
          rcases Option.map_eq_some_iff.mp rest with ⟨final, reported, isFinal⟩
          cases isFinal
          rcases Option.map_eq_some_iff.mp reported with ⟨⟨again, second, nested⟩, report, rfl⟩
          rcases tallied.counted appended with ⟨counted, some'⟩
          rcases counted.reported some' rfl report with ⟨after, told⟩
          let total := Loss.addTo middle.cumulativeLoss l
          have appends : f.submitAppends event nowMs =
              [⟨event, first, none, f.spool.gone middle.spool⟩,
                ⟨lossReport middle.gatewayId total nowMs, second, some total,
                  middle.spool.gone again.spool⟩] := by
            rw [Forwarder.submitAppends, appended]
            change _ :: (middle.reportAppends l nowMs ++ []) = _
            rw [Forwarder.reportAppends, report]
            rfl
          have parts : h.submitted (f.submitAppends event nowMs)
              (some (again.nested nested, first)) =
              { (h.adding ⟨event, first, none, f.spool.gone middle.spool⟩).adding
                ⟨lossReport middle.gatewayId total nowMs, second, some total,
                  middle.spool.gone again.spool⟩ with
                forwarder := some (again.nested nested) } := by
            rw [appends, submitted, adding, adding, List.append_assoc]
            rfl
          rw [parts]
          exact .running rfl (after.moved _) (told.moved _)

/-- A state of the forwarder with the same totals, where nothing new waits. -/
structure SameTotals (written : List Entry) (f after : Forwarder) : Prop where
  loss : after.cumulativeLoss = f.cumulativeLoss
  lost : after.stats.lost = f.stats.lost
  next : after.spool.nextSeq = f.spool.nextSeq
  waited : ∀ p ∈ after.spool.waiting, p ∈ f.spool.waiting
  logged : Logged written after.disk after.spool

theorem SameTotals.trans {written : List Entry} {middle : Forwarder}
    (first : SameTotals written f middle) (second : SameTotals written middle after) :
    SameTotals written f after where
  loss := second.loss.trans first.loss
  lost := second.lost.trans first.lost
  next := second.next.trans first.next
  waited p waits := first.waited p (second.waited p waits)
  logged := second.logged

theorem report_same {written : List Entry} (logged : Logged written f.disk f.spool)
    (r : Nat × Bool) : SameTotals written f (f.report r) := by
  cases said : r.2 with
  | true =>
      rcases logged.ack r.1 with ⟨after, acknowledges⟩
      have same : f.report r = { f with
          disk := f.disk.applyAll (f.spool.ack r.1).1
          spool := (f.spool.ack r.1).2
          stats := { f.stats with delivered := f.stats.delivered + 1 } } := by
        rw [Forwarder.report, said]
        rfl
      rw [same]
      refine ⟨rfl, rfl, acknowledges.next, ?_, after⟩
      intro p waits
      rw [acknowledges.waiting] at waits
      exact List.mem_of_mem_erase waits
  | false =>
      have same : f.report r = { f with
          stats := { f.stats with failedDeliveries := f.stats.failedDeliveries + 1 } } := by
        rw [Forwarder.report, said]
        rfl
      rw [same]
      exact ⟨rfl, rfl, rfl, fun _ waits => waits, logged⟩

theorem reports_same {written : List Entry} (logged : Logged written f.disk f.spool)
    (reports : List (Nat × Bool)) :
    SameTotals written f (reports.foldl Forwarder.report f) := by
  induction reports generalizing f with
  | nil => exact ⟨rfl, rfl, rfl, fun _ waits => waits, logged⟩
  | cons r rest ih =>
      have first := report_same logged r
      exact first.trans (ih first.logged)

theorem sendLoop_same {written : List Entry} (logged : Logged written f.disk f.spool)
    (answers : Nat → SendOutcome) (rounds made remaining : Nat) :
    SameTotals written f (sendLoop answers rounds made remaining f).1 := by
  induction rounds generalizing made remaining f with
  | zero => exact ⟨rfl, rfl, rfl, fun _ waits => waits, logged⟩
  | succ rounds ih =>
      have still : SameTotals written f f := ⟨rfl, rfl, rfl, fun _ waits => waits, logged⟩
      rw [sendLoop]
      by_cases spent : remaining = 0
      · rw [if_pos spent]
        exact still
      rw [if_neg spent]
      generalize f.spool.read f.disk f.cursor (min remaining 256) = batch
      by_cases empty : batch.1.isEmpty = true
      · rw [if_pos empty]
        exact ⟨rfl, rfl, rfl, fun _ waits => waits, logged⟩
      · rw [if_neg empty]
        have sent : ∀ (sends : List Send) (cursor : Cursor),
            SameTotals written f (f.send sends cursor) :=
          fun sends cursor => ⟨rfl, rfl, rfl, fun _ waits => waits, logged⟩
        dsimp only
        split
        case h_1 position full => exact sent _ _
        case h_2 none' =>
          have first := sent (Forwarder.offer answers made batch.1).1 batch.2
          exact first.trans (ih first.logged _ _)

theorem pump_same {written : List Entry} (logged : Logged written f.disk f.spool)
    (budget : Nat) (reports : List (Nat × Bool)) (answers : Nat → SendOutcome) :
    SameTotals written f (f.pump budget reports answers).1 := by
  have reported := reports_same logged reports
  have processed : SameTotals written f (f.processReports reports) := by
    unfold Forwarder.processReports
    split
    · exact ⟨reported.loss, reported.lost, reported.next, reported.waited, reported.logged⟩
    · exact reported
  exact processed.trans (sendLoop_same processed.logged answers budget 0 budget)

theorem Tallied.same (tallied : h.Tallied f) (same : SameTotals h.written f after) :
    h.Tallied after where
  placed := by
    have placed := tallied.placed
    refine ⟨same.logged, placed.numbered, ?_, ?_, ?_⟩
    · rw [same.next]
      exact placed.below
    · rw [same.next]
      exact placed.dropped
    · exact fun seq gone p waits => placed.passed seq gone p (same.waited p waits)
  lost := same.lost.trans tallied.lost
  quiet := by
    rw [same.loss]
    exact tallied.quiet
  covers := by
    rw [same.loss]
    exact tallied.covers

theorem Steady.step (steady : h.Steady) (event : ForwardStep) : (h.step event).Steady := by
  cases steady with
  | stopped closed latest =>
      have same : h.step event = h := by
        rw [LossRun.step, closed]
      rw [same]
      exact .stopped closed latest
  | @running f isOpen tallied latest =>
      simp only [LossRun.step, isOpen]
      have logged := tallied.placed.logged
      cases event with
      | submitFlow record nowMs => exact tallied.submits latest
      | submitHealth component kind count sequences eventTimesMs detail nowMs =>
          exact tallied.submits latest
      | pump budget reports answers =>
          have same := tallied.same (pump_same logged budget reports answers)
          exact .running rfl (same.moved _) (latest.moved _)
      | sync =>
          have synced : SameTotals h.written f f.sync :=
            ⟨rfl, rfl, rfl, fun _ waits => waits, logged.sync⟩
          exact .running rfl ((tallied.same synced).moved _) (latest.moved _)

end Stepping

theorem Steady.run {h : LossRun} (steady : h.Steady) (steps : List ForwardStep) :
    (Runs.run LossRun.step h steps).Steady := by
  induction steps generalizing h with
  | nil => exact steady
  | cons event rest ih => exact ih (steady.step event)

theorem Steady.tells {h : LossRun} (steady : h.Steady) : h.Tells := by
  cases steady with
  | stopped closed latest =>
      refine ⟨?_, latest.reported, latest.covers⟩
      intro f isOpen
      rw [closed] at isOpen
      cases isOpen
  | @running f isOpen tallied latest =>
      refine ⟨?_, latest.reported, latest.covers⟩
      intro other same
      rw [isOpen] at same
      cases same
      exact tallied.lost

/-- Without nested losses the reports tell of all. -/
theorem Tells.told {h : LossRun} (tells : h.Tells)
    (flat : ∀ a ∈ h.appended, a.total.isSome = true → a.gone = []) : h.Told := by
  have own : ∀ report, h.latest = some report → report.2 = [] := by
    intro report isLatest
    have member := List.mem_of_getLast? isLatest
    rcases List.mem_filterMap.mp member with ⟨a, there, isReport⟩
    rcases Option.map_eq_some_iff.mp isReport with ⟨total, isTotal, rfl⟩
    exact flat a there (Option.isSome_iff_exists.mpr ⟨total, isTotal⟩)
  refine ⟨tells.lost, tells.reported, ?_, ?_, ?_⟩
  · intro f isOpen report isLatest
    have count := (tells.covers report isLatest).count
    rw [own report isLatest, List.length_nil, Nat.add_zero] at count
    rw [count, tells.lost f isOpen]
  · intro report isLatest seq gone
    have range := (tells.covers report isLatest).range seq gone
    rw [own report isLatest] at range
    exact range.resolve_left List.not_mem_nil
  · intro report isLatest seq gone
    rcases List.mem_flatMap.mp gone with ⟨a, there, now⟩
    have event : a.total = none := by
      cases isTotal : a.total with
      | none => rfl
      | some total =>
          have nothing := flat a there (by rw [isTotal]; rfl)
          rw [nothing] at now
          cases now
    exact (tells.covers report isLatest).times a there event seq now

/-- In every run on a recovered spool the losses are counted and told of by the latest report, but
for what the append of that report dropped; without such nested losses nothing is left out. -/
theorem losses_told (gatewayId : String) (config : SpoolConfig) {disk : Disk}
    {files : List StoredFile} (recoverable : Recoverable disk files) {spool : Spool}
    (opened : (Spool.open config disk).2 = some spool) (steps : List ForwardStep) :
    (Runs.run step (start gatewayId config disk) steps).Tells ∧
      ((∀ a ∈ (Runs.run step (start gatewayId config disk) steps).appended,
          a.total.isSome = true → a.gone = []) →
        (Runs.run step (start gatewayId config disk) steps).Told) := by
  have steady : (start gatewayId config disk).Steady := steady_start recoverable opened
  have tells := (steady.run steps).tells
  exact ⟨tells, tells.told⟩

/-- Segments of two records, shorter than the record of a report. -/
def narrow : SpoolConfig := ⟨110, 220⟩

theorem opened_narrow : (Spool.open narrow .empty).2 =
    some ⟨narrow, [], none, 0, 4096, 0⟩ := by
  have fits : ¬ narrow.maxBytes < 2 * narrow.segmentBytes := by decide
  have sorted : Disk.empty.sorted = [] := List.mergeSort_nil
  simp only [Spool.open, fits, if_false, sorted, List.flatMap_nil, List.filterMap_nil]
  rfl

theorem start_narrow : start "gw" narrow .empty =
    ⟨some (.new "gw" ⟨[], some (numberLine 4096), none, none, none⟩
      ⟨narrow, [], none, 0, 4096, 0⟩), [], []⟩ := by
  have fits : ¬ narrow.maxBytes < 2 * narrow.segmentBytes := by decide
  have sorted : Disk.empty.sorted = [] := List.mergeSort_nil
  simp only [start, Spool.open, fits, if_false, sorted, List.flatMap_nil, List.filterMap_nil]
  rfl

def reading (t : Int64) : ForwardStep := .submitHealth "" .heartbeat 0 (0, 0) (t, t) "" 0

def narrowSteps : List ForwardStep := [reading 1, reading 2, reading 3, reading 4, reading 5]

theorem losses_told_narrow : (Runs.run step (start "gw" narrow .empty) narrowSteps).Tells ∧
    ((∀ a ∈ (Runs.run step (start "gw" narrow .empty) narrowSteps).appended,
        a.total.isSome = true → a.gone = []) →
      (Runs.run step (start "gw" narrow .empty) narrowSteps).Told) :=
  losses_told "gw" narrow recoverable_empty opened_narrow narrowSteps

theorem narrow_lost : ((Runs.run step (start "gw" narrow .empty) narrowSteps).forwarder.map
      fun f => f.stats.lost) = some 4 ∧
    ((Runs.run step (start "gw" narrow .empty) narrowSteps).latest.map
      fun report => report.1.count) = some 2 := by
  rw [start_narrow]
  decide +kernel

theorem nested_loss_untold : ¬ (Runs.run step (start "gw" narrow .empty) narrowSteps).Told := by
  intro told
  rcases narrow_lost with ⟨lost, count⟩
  rcases Option.map_eq_some_iff.mp lost with ⟨f, isOpen, four⟩
  rcases Option.map_eq_some_iff.mp count with ⟨report, isLatest, two⟩
  have same := told.count f isOpen report isLatest
  omega

end LossRun

end PiAgents.Spooling
