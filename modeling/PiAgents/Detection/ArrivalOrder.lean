import PiAgents.Detection.WindowSpec

/-! The same flows in another order of arrival: the windows hold the same contributions, and what
the views report of them does not depend on the order of ties. -/

namespace PiAgents.Detection

/-- Contributions of one target at one time agree on the outcome. -/
def Agreeing (contributions : List Contribution) : Prop :=
  ∀ a ∈ contributions, ∀ b ∈ contributions, a.target = b.target →
    a.eventTimeMs = b.eventTimeMs → a.failed = b.failed

section Perm

variable {first second : List Contribution}

theorem windowOf_perm (perm : first.Perm second) (clockMs lengthMs : Int64) :
    (windowOf first clockMs lengthMs).Perm (windowOf second clockMs lengthMs) :=
  calc
    (windowOf first clockMs lengthMs).Perm (first.filter (inWindow clockMs lengthMs)) :=
      List.perm_insertionSort earlier _
    List.Perm _ (second.filter (inWindow clockMs lengthMs)) := perm.filter _
    List.Perm _ (windowOf second clockMs lengthMs) := (List.perm_insertionSort earlier _).symm

theorem windowOf_sorted (added : List Contribution) (clockMs lengthMs : Int64) :
    (windowOf added clockMs lengthMs).Pairwise earlier :=
  List.pairwise_insertionSort earlier _

theorem mem_windowOf {added : List Contribution} {clockMs lengthMs : Int64} {c : Contribution}
    (member : c ∈ windowOf added clockMs lengthMs) : c ∈ added :=
  (List.mem_filter.mp ((List.perm_insertionSort earlier _).mem_iff.mp member)).1

theorem distinct_perm (perm : first.Perm second) (part : Contribution → String) :
    (first.map part).dedup.length = (second.map part).dedup.length := by
  apply List.Perm.length_eq
  exact (perm.map part).dedup

theorem latest_of_target {contributions : List Contribution} {last : Contribution}
    {target : String} (sorted : contributions.Pairwise earlier)
    (isLast : (fiber contributions target).getLast? = some last) :
    ∀ c ∈ fiber contributions target, earlier c last := by
  intro c member
  have parts := List.dropLast_append_getLast? last isLast
  have ordered : (fiber contributions target).Pairwise earlier := sorted.sublist List.filter_sublist
  rw [← parts] at member ordered
  rcases List.mem_append.mp member with front | same
  · exact (List.pairwise_append.mp ordered).2.2 c front last (List.mem_singleton_self _)
  · rw [List.mem_singleton.mp same]
    exact Int64.le_refl _

theorem lastFailed_perm (perm : first.Perm second) (firstSorted : first.Pairwise earlier)
    (secondSorted : second.Pairwise earlier) (agreeing : Agreeing first) (target : String) :
    lastFailed first target = lastFailed second target := by
  have fibers : (fiber first target).Perm (fiber second target) := perm.filter _
  cases isFirst : (fiber first target).getLast? with
  | none =>
      have empty := List.getLast?_eq_none_iff.mp isFirst
      rw [empty] at fibers
      rw [lastFailed, lastFailed, empty, List.nil_perm.mp fibers]
  | some a =>
      cases isSecond : (fiber second target).getLast? with
      | none =>
          have empty := List.getLast?_eq_none_iff.mp isSecond
          rw [empty, List.perm_nil] at fibers
          rw [fibers] at isFirst
          cases isFirst
      | some b =>
          have inFirst := List.mem_of_getLast? isFirst
          have inSecond := fibers.mem_iff.mpr (List.mem_of_getLast? isSecond)
          have before := latest_of_target firstSorted isFirst b inSecond
          have after := latest_of_target secondSorted isSecond a (fibers.mem_iff.mp inFirst)
          have same := agreeing a (List.mem_filter.mp inFirst).1 b (List.mem_filter.mp inSecond).1
            ((eq_of_beq (List.mem_filter.mp inFirst).2).trans
              (eq_of_beq (List.mem_filter.mp inSecond).2).symm) (Int64.le_antisymm after before)
          rw [lastFailed, lastFailed, isFirst, isSecond]
          exact congrArg (·.getD false) (congrArg some same)

theorem failedSet_perm (perm : first.Perm second) (firstSorted : first.Pairwise earlier)
    (secondSorted : second.Pairwise earlier) (agreeing : Agreeing first) :
    failedSet first = failedSet second := by
  ext target
  rw [mem_failedSet, mem_failedSet, lastFailed_perm perm firstSorted secondSorted agreeing]

theorem recompute_sameCounts (perm : first.Perm second) (firstSorted : first.Pairwise earlier)
    (secondSorted : second.Pairwise earlier) (agreeing : Agreeing first) (deviceKey : String)
    (clockMs lengthMs : Int64) :
    (recompute deviceKey clockMs lengthMs first).sameCounts
      (recompute deviceKey clockMs lengthMs second) = true := by
  have failed := failedSet_perm perm firstSorted secondSorted agreeing
  simp only [View.sameCounts, recompute, perm.length_eq, totalBytes_perm perm,
    distinct_perm perm, ← failedSet_card, failed, beq_self_eq_true, Bool.and_self]

theorem eq_of_distinct_times (perm : first.Perm second) (firstSorted : first.Pairwise earlier)
    (secondSorted : second.Pairwise earlier)
    (distinct : (first.map Contribution.eventTimeMs).Nodup) : first = second := by
  apply perm.eq_of_pairwise _ firstSorted secondSorted
  intro a b inFirst inSecond before after
  exact List.inj_on_of_nodup_map distinct inFirst (perm.mem_iff.mpr inSecond)
    (Int64.le_antisymm before after)

end Perm

namespace DeviceWindows

def WindowCall.record? : WindowCall → Option FlowRecord
  | .add record => some record
  | .advanceTo _ => none

/-- The flows that the calls add. -/
def recordsOf (calls : List WindowCall) : List FlowRecord := calls.filterMap WindowCall.record?

theorem added_eq_records (calls : List WindowCall) :
    calls.filterMap WindowCall.added? = (recordsOf calls).map Contribution.of := by
  induction calls with
  | nil => rfl
  | cons made rest ih =>
      cases made with
      | add record => exact congrArg (Contribution.of record :: ·) ih
      | advanceTo newClockMs => exact ih

/-- No two flows of one target have one event time and different outcomes. -/
def NoConflict (records : List FlowRecord) : Prop :=
  ∀ a ∈ records, ∀ b ∈ records, (Contribution.of a).target = (Contribution.of b).target →
    a.eventTimeMs = b.eventTimeMs → a.attemptOutcome = b.attemptOutcome

theorem NoConflict.agreeing {records : List FlowRecord} (none : NoConflict records) :
    Agreeing (records.map Contribution.of) := by
  intro a inFirst b inSecond target time
  rcases List.mem_map.mp inFirst with ⟨first, firstIn, rfl⟩
  rcases List.mem_map.mp inSecond with ⟨second, secondIn, rfl⟩
  have outcome := none first firstIn second secondIn target time
  simp only [Contribution.of, outcome]

section Orders

variable {lengths : List Int64} {first second : DeviceWindows}
  {firstAdded secondAdded : List Contribution}

theorem views_of_covers (covers : first.Covers lengths firstAdded) (deviceKey : String) :
    first.views deviceKey = lengths.map fun length =>
      recompute deviceKey first.clockMs length (windowOf firstAdded first.clockMs length) := by
  rw [← covers.lengths, List.map_map, views]
  apply List.map_congr_left
  intro h member
  rw [h.view_eq_recompute (covers.tracks h member), covers.held h member]
  rfl

theorem sameCounts_of_perm (covers : first.Covers lengths firstAdded)
    (others : second.Covers lengths secondAdded) (perm : firstAdded.Perm secondAdded)
    (clock : first.clockMs = second.clockMs) (agreeing : Agreeing firstAdded)
    (deviceKey : String) : List.Forall₂ (fun v o => View.sameCounts v o = true)
      (first.views deviceKey) (second.views deviceKey) := by
  rw [views_of_covers covers, views_of_covers others, clock, List.forall₂_map_left_iff,
    List.forall₂_map_right_iff]
  apply List.forall₂_same.mpr
  intro length _
  apply recompute_sameCounts (windowOf_perm perm _ _) (windowOf_sorted _ _ _)
    (windowOf_sorted _ _ _)
  intro a inFirst b inSecond
  exact agreeing a (mem_windowOf inFirst) b (mem_windowOf inSecond)

theorem views_of_perm (covers : first.Covers lengths firstAdded)
    (others : second.Covers lengths secondAdded) (perm : firstAdded.Perm secondAdded)
    (clock : first.clockMs = second.clockMs)
    (distinct : (firstAdded.map Contribution.eventTimeMs).Nodup) (deviceKey : String) :
    first.views deviceKey = second.views deviceKey := by
  rw [views_of_covers covers, views_of_covers others, clock]
  apply List.map_congr_left
  intro length _
  have windows : windowOf firstAdded second.clockMs length =
      windowOf secondAdded second.clockMs length := by
    apply eq_of_distinct_times (windowOf_perm perm _ _) (windowOf_sorted _ _ _)
      (windowOf_sorted _ _ _)
    have sorting := List.perm_insertionSort earlier
      (firstAdded.filter (inWindow second.clockMs length))
    apply (sorting.map Contribution.eventTimeMs).nodup_iff.mpr
    exact distinct.sublist (List.filter_sublist.map _)
  rw [windows]

end Orders

/-- Two sequences of calls that add the same flows and end with the same clock report the same
counts, and with distinct event times the same views. -/
theorem arrival_order_irrelevant (lengths : List Int64)
    (positiveLengths : ∀ length ∈ lengths, 0 < length) (first second : List WindowCall)
    (same : (recordsOf first).Perm (recordsOf second))
    (clock : (Runs.run call (new lengths) first).clockMs =
      (Runs.run call (new lengths) second).clockMs)
    (room : ∀ record ∈ recordsOf first, ∀ length ∈ lengths, Room record.eventTimeMs length)
    (deviceKey : String) :
    (NoConflict (recordsOf first) →
      List.Forall₂ (fun v o => View.sameCounts v o = true)
        ((Runs.run call (new lengths) first).views deviceKey)
        ((Runs.run call (new lengths) second).views deviceKey)) ∧
    (((recordsOf first).map FlowRecord.eventTimeMs).Nodup →
      (Runs.run call (new lengths) first).views deviceKey =
        (Runs.run call (new lengths) second).views deviceKey) := by
  have roomy : ∀ calls, (recordsOf first).Perm (recordsOf calls) →
      ∀ c ∈ calls.filterMap WindowCall.added?, ∀ length ∈ lengths,
        Room c.eventTimeMs length := by
    intro calls perm c member
    rw [added_eq_records] at member
    rcases List.mem_map.mp member with ⟨record, inRecords, rfl⟩
    exact room record (perm.mem_iff.mpr inRecords)
  have covers := run_covers lengths positiveLengths first (roomy first (.refl _))
  have others := run_covers lengths positiveLengths second (roomy second same)
  rw [added_eq_records] at covers others
  have perm := same.map Contribution.of
  constructor
  · intro none
    exact sameCounts_of_perm covers others perm clock none.agreeing deviceKey
  · intro distinct
    apply views_of_perm covers others perm clock _ deviceKey
    rw [List.map_map]
    exact distinct

/-- The late flow in the order of the event times. -/
def orderedFlowCalls : List WindowCall :=
  [.add (probe 110000 22), .add (probe 120000 24), .advanceTo 125000, .add (probe 130000 23),
    .advanceTo 175000]

theorem arrival_order_late_flow :
    (Runs.run call (new minuteAndQuarter) lateFlowCalls).views "device" =
      (Runs.run call (new minuteAndQuarter) orderedFlowCalls).views "device" := by
  have same : (recordsOf lateFlowCalls).Perm (recordsOf orderedFlowCalls) := by decide
  have times : ∀ record ∈ recordsOf lateFlowCalls, 0 < record.eventTimeMs := by decide
  have room : ∀ record ∈ recordsOf lateFlowCalls, ∀ length ∈ minuteAndQuarter,
      Room record.eventTimeMs length := by
    intro record member length _
    exact room_of_positive (times record member) length
  have both := arrival_order_irrelevant minuteAndQuarter minute_and_quarter_positive lateFlowCalls
    orderedFlowCalls same (by decide) room "device"
  exact both.2 (by decide)

/-- Near the least time the start of a window wraps around: a flow is refused when it moves the
clock, and accepted once time has passed. -/
theorem arrival_order_matters_near_least_time :
    ¬ ∀ (lengths : List Int64), (∀ length ∈ lengths, 0 < length) →
      ∀ first second : List WindowCall, (recordsOf first).Perm (recordsOf second) →
        (Runs.run call (new lengths) first).clockMs =
          (Runs.run call (new lengths) second).clockMs →
        NoConflict (recordsOf first) → ∀ deviceKey,
          List.Forall₂ (fun v o => View.sameCounts v o = true)
            ((Runs.run call (new lengths) first).views deviceKey)
            ((Runs.run call (new lengths) second).views deviceKey) := by
  intro claimed
  have none : NoConflict (recordsOf [.add (probe (-9223372036854775800) 22),
      .advanceTo (-9223372036854775796)]) := by
    intro a inFirst b inSecond
    rw [List.mem_singleton.mp inFirst, List.mem_singleton.mp inSecond]
    exact fun _ _ => rfl
  have positive : ∀ length ∈ ([10] : List Int64), 0 < length := by
    intro length member
    rw [List.mem_singleton.mp member]
    decide
  have same := claimed [10] positive
    [.add (probe (-9223372036854775800) 22), .advanceTo (-9223372036854775796)]
    [.advanceTo (-9223372036854775796), .add (probe (-9223372036854775800) 22)]
    (.refl _) (by decide) none "device"
  revert same
  decide

end DeviceWindows

end PiAgents.Detection
