import PiAgents.Detection.RollingViews
import PiAgents.Detection.WindowSpec

/-! The device clock of `RollingViews` against wall time: how far a timer moves it, and when a
late record lets it run ahead. -/

namespace PiAgents.Detection

private theorem toInt_add_le (a b : Int64) (nonneg : 0 ≤ b.toInt) :
    (a + b).toInt ≤ a.toInt + b.toInt := by
  have low := a.le_toInt
  rw [Int64.toInt_add]
  by_cases fits : a.toInt + b.toInt < 2 ^ 63
  · rw [Int.bmod_eq_of_le] <;> omega
  · have bounded : (a.toInt + b.toInt).bmod (2 ^ 64) < (2 ^ 64 + 1) / 2 :=
      Int.bmod_lt (by decide)
    omega

namespace DeviceWindows

/-- The contributions are not newer than the clock. -/
def Timed (w : DeviceWindows) : Prop :=
  ∀ h ∈ w.horizons, ∀ c ∈ h.contributions,
    Int64.minValue < c.eventTimeMs ∧ c.eventTimeMs ≤ w.clockMs

theorem new_timed (lengths : List Int64) : (new lengths).Timed := by
  intro h member c held
  obtain ⟨length, -, rfl⟩ := List.mem_map.mp member
  cases held

theorem advance_clock (w : DeviceWindows) (newClockMs : Int64) :
    (w.advanceTo newClockMs).1.clockMs.toInt = max w.clockMs.toInt newClockMs.toInt := by
  unfold advanceTo
  split
  · next stays =>
      rw [Int64.le_iff_toInt_le] at stays
      simp only
      omega
  · next moves =>
      rw [Int64.le_iff_toInt_le] at moves
      simp only
      omega

theorem advance_subset (w : DeviceWindows) (newClockMs : Int64) :
    ∀ moved ∈ (w.advanceTo newClockMs).1.horizons,
      ∃ h ∈ w.horizons, moved.contributions <:+ h.contributions := by
  intro moved member
  unfold advanceTo at member
  split at member
  · exact ⟨moved, member, List.suffix_refl _⟩
  · obtain ⟨h, inside, rfl⟩ := List.mem_map.mp member
    refine ⟨h, inside, ?_⟩
    rw [Horizon.expire, (h.expire_loop_contributions _).1]
    exact List.dropWhile_suffix _

theorem advance_timed (w : DeviceWindows) (newClockMs : Int64) (timed : w.Timed) :
    (w.advanceTo newClockMs).1.Timed := by
  intro moved member c held
  obtain ⟨h, inside, suffix⟩ := w.advance_subset newClockMs moved member
  obtain ⟨above, below⟩ := timed h inside c (suffix.subset held)
  refine ⟨above, ?_⟩
  have forward := w.advance_clock newClockMs
  rw [Int64.le_iff_toInt_le] at below ⊢
  omega

theorem add_clock (w : DeviceWindows) (record : FlowRecord) :
    (w.add record).clockMs.toInt = max w.clockMs.toInt record.eventTimeMs.toInt := by
  have moved := w.advance_clock (mathMax w.clockMs record.eventTimeMs)
  rw [mathMax_toInt] at moved
  have same : (w.add record).clockMs =
      (w.advanceTo (mathMax w.clockMs record.eventTimeMs)).1.clockMs := rfl
  rw [same]
  omega

theorem mem_insertFromTail {contributions : List Contribution} {c b : Contribution} :
    b ∈ Horizon.insertFromTail contributions c ↔ b = c ∨ b ∈ contributions := by
  rw [insertFromTail_eq, (StableOrder.insertLast_perm earlier contributions c).mem_iff,
    List.mem_cons]

theorem add_timed (w : DeviceWindows) (record : FlowRecord) (timed : w.Timed) :
    (w.add record).Timed := by
  have base := w.advance_timed (mathMax w.clockMs record.eventTimeMs) timed
  have clock := w.add_clock record
  intro joined member c held
  obtain ⟨h, inside, rfl⟩ := List.mem_map.mp member
  split at held
  · next covers =>
      rcases mem_insertFromTail.mp held with rfl | old
      · constructor
        · exact Int64.lt_of_le_of_lt (Int64.minValue_le _) covers
        · rw [Int64.le_iff_toInt_le, clock]
          exact Int.le_max_right _ _
      · exact base h inside c old
  · exact base h inside c held

/-! The newest event time held. -/

private theorem newest_loop_le (horizons : List Horizon) (latest bound : Int64) :
    horizons.foldl Horizon.latest latest ≤ bound ↔
      latest ≤ bound ∧
        ∀ h ∈ horizons, ∀ last ∈ h.contributions.getLast?, last.eventTimeMs ≤ bound := by
  induction horizons generalizing latest with
  | nil => simp
  | cons h horizons ih =>
      rw [List.foldl_cons, ih, List.forall_mem_cons, Horizon.latest]
      cases newest : h.contributions.getLast? with
      | none => simp
      | some last =>
          have split : mathMax latest last.eventTimeMs ≤ bound ↔
              latest ≤ bound ∧ last.eventTimeMs ≤ bound := by
            rw [Int64.le_iff_toInt_le, Int64.le_iff_toInt_le, Int64.le_iff_toInt_le,
              mathMax_toInt]
            omega
          simp only [split, Option.mem_some_iff, forall_eq', and_assoc]

theorem newestTime_le_iff (w : DeviceWindows) (bound : Int64) :
    w.newestTime ≤ bound ↔
      ∀ h ∈ w.horizons, ∀ last ∈ h.contributions.getLast?, last.eventTimeMs ≤ bound := by
  rw [newestTime, newest_loop_le]
  exact and_iff_right (Int64.minValue_le bound)

theorem newestTime_le_clock (w : DeviceWindows) (timed : w.Timed) : w.newestTime ≤ w.clockMs := by
  apply (w.newestTime_le_iff w.clockMs).mpr
  intro h member last newest
  exact (timed h member last (List.mem_of_getLast? newest)).2

theorem latestEventTime_le_clock (w : DeviceWindows) (timed : w.Timed) :
    w.latestEventTime ≤ w.clockMs := by
  unfold latestEventTime
  split
  · exact Int64.le_refl _
  · exact w.newestTime_le_clock timed

theorem advance_newest_le (w : DeviceWindows) (newClockMs : Int64) :
    (w.advanceTo newClockMs).1.newestTime ≤ w.newestTime := by
  apply (newestTime_le_iff _ _).mpr
  intro moved member last newest
  obtain ⟨h, inside, front, suffix⟩ := w.advance_subset newClockMs moved member
  apply (w.newestTime_le_iff w.newestTime).mp (Int64.le_refl _) h inside last
  rw [← suffix, List.getLast?_append, Option.mem_def.mp newest]
  rfl

theorem isEmpty_of_newest_min (w : DeviceWindows) (timed : w.Timed)
    (none : w.newestTime = Int64.minValue) : w.isEmpty = true := by
  apply List.all_eq_true.mpr
  intro h member
  cases newest : h.contributions.getLast? with
  | none => rw [List.getLast?_eq_none_iff.mp newest, List.isEmpty_nil]
  | some last =>
      have low : last.eventTimeMs ≤ Int64.minValue :=
        (w.newestTime_le_iff _).mp (none ▸ Int64.le_refl _) h member last newest
      have high := (timed h member last (List.mem_of_getLast? newest)).1
      rw [Int64.le_iff_toInt_le] at low
      rw [Int64.lt_iff_toInt_lt] at high
      omega

theorem advance_latest_le (w : DeviceWindows) (newClockMs : Int64) (timed : w.Timed)
    (kept : (w.advanceTo newClockMs).1.isEmpty = false) :
    (w.advanceTo newClockMs).1.latestEventTime ≤ w.latestEventTime := by
  have shrinks := w.advance_newest_le newClockMs
  have present : (w.advanceTo newClockMs).1.newestTime ≠ Int64.minValue := by
    intro none
    rw [isEmpty_of_newest_min _ (w.advance_timed newClockMs timed) none] at kept
    cases kept
  have presentBefore : w.newestTime ≠ Int64.minValue := by
    intro none
    rw [none] at shrinks
    exact present (Int64.le_antisymm shrinks (Int64.minValue_le _))
  rw [latestEventTime, latestEventTime, if_neg present, if_neg presentBefore]
  exact shrinks

/-- Whether a record behind the clock still joins a horizon. -/
def covers (w : DeviceWindows) (eventTimeMs : Int64) : Bool :=
  w.horizons.any fun h => w.clockMs - h.lengthMs < eventTimeMs

/-- The newest event time once a record behind the clock has been added. -/
def latestWith (w : DeviceWindows) (eventTimeMs : Int64) : Int64 :=
  if w.covers eventTimeMs then mathMax w.newestTime eventTimeMs else w.latestEventTime

theorem add_late (w : DeviceWindows) (record : FlowRecord)
    (late : record.eventTimeMs ≤ w.clockMs) :
    w.add record = { w with horizons := w.horizons.map fun h =>
      if w.clockMs - h.lengthMs < record.eventTimeMs then h.add (.of record) else h } := by
  have stays : mathMax w.clockMs record.eventTimeMs ≤ w.clockMs := by
    rw [Int64.le_iff_toInt_le] at late ⊢
    rw [mathMax_toInt]
    omega
  have unmoved : (w.advanceTo (mathMax w.clockMs record.eventTimeMs)).1 = w := by
    rw [advanceTo, if_pos stays]
  calc w.add record
    _ = let moved := (w.advanceTo (mathMax w.clockMs record.eventTimeMs)).1
        { moved with horizons := moved.horizons.map fun h =>
            if moved.clockMs - h.lengthMs < record.eventTimeMs then h.add (.of record) else h } :=
          rfl
    _ = _ := by rw [unmoved]

theorem insertFromTail_newest (contributions : List Contribution) (c last : Contribution)
    (newest : last ∈ (Horizon.insertFromTail contributions c).getLast?) :
    c.eventTimeMs ≤ last.eventTimeMs ∧
      (last = c ∨ last ∈ contributions.getLast?) := by
  rw [insertFromTail_eq] at newest
  by_cases before : ∀ b ∈ contributions.getLast?, earlier b c
  · rw [StableOrder.insertLast_of_last earlier contributions c before, List.getLast?_concat,
      Option.mem_some_iff] at newest
    exact ⟨newest ▸ Int64.le_refl _, Or.inl newest.symm⟩
  · push Not at before
    obtain ⟨b, isLast, after⟩ := before
    have kept := StableOrder.insertLast_getLast earlier contributions c b isLast after
    have same : b = last := Option.mem_unique kept newest
    subst same
    exact ⟨(Std.Total.total (r := earlier) c b).resolve_right after, Or.inr isLast⟩

theorem add_covered_newest (w : DeviceWindows) (record : FlowRecord)
    (late : record.eventTimeMs ≤ w.clockMs) (covered : w.covers record.eventTimeMs = true) :
    (w.add record).newestTime ≠ Int64.minValue := by
  obtain ⟨joined, inside, joins⟩ := List.any_eq_true.mp covered
  rw [decide_eq_true_eq] at joins
  have member : joined.add (.of record) ∈ (w.add record).horizons := by
    rw [w.add_late record late]
    exact List.mem_map.mpr ⟨joined, inside, if_pos joins⟩
  have held : Contribution.of record ∈ (joined.add (.of record)).contributions :=
    mem_insertFromTail.mpr (Or.inl rfl)
  obtain ⟨last, newest⟩ := Option.isSome_iff_exists.mp
    (List.getLast?_isSome.mpr (List.ne_nil_of_mem held))
  intro none
  have bounded : (w.add record).newestTime ≤ Int64.minValue := none ▸ Int64.le_refl _
  have low := (newestTime_le_iff _ _).mp bounded _ member last newest
  have high := (insertFromTail_newest joined.contributions _ last newest).1
  have above := Int64.lt_of_le_of_lt (Int64.minValue_le _) joins
  exact Int64.lt_irrefl (Int64.lt_of_lt_of_le above (Int64.le_trans high low))

theorem latest_add_late_le (w : DeviceWindows) (record : FlowRecord)
    (late : record.eventTimeMs ≤ w.clockMs) :
    (w.add record).latestEventTime ≤ w.latestWith record.eventTimeMs := by
  have after := w.add_late record late
  by_cases covered : w.covers record.eventTimeMs = true
  · rw [latestEventTime, if_neg (w.add_covered_newest record late covered), latestWith,
      if_pos covered]
    have old := (w.newestTime_le_iff w.newestTime).mp (Int64.le_refl _)
    apply (newestTime_le_iff _ _).mpr
    intro h member last newest
    rw [after] at member
    obtain ⟨before, inside, rfl⟩ := List.mem_map.mp member
    rw [Int64.le_iff_toInt_le, mathMax_toInt]
    split at newest
    · rcases (insertFromTail_newest before.contributions _ last newest).2 with rfl | kept
      · exact Int.le_max_right _ _
      · exact (Int64.le_iff_toInt_le.mp (old before inside last kept)).trans (Int.le_max_left _ _)
    · exact (Int64.le_iff_toInt_le.mp (old before inside last newest)).trans (Int.le_max_left _ _)
  · have outside : ∀ h ∈ w.horizons, ¬ w.clockMs - h.lengthMs < record.eventTimeMs := by
      intro h member joins
      exact covered (List.any_eq_true.mpr ⟨h, member, decide_eq_true joins⟩)
    have same : w.horizons.map (fun h =>
        if w.clockMs - h.lengthMs < record.eventTimeMs then h.add (.of record) else h) =
          w.horizons := by
      calc w.horizons.map _
        _ = w.horizons.map id := List.map_congr_left fun h member => if_neg (outside h member)
        _ = w.horizons := List.map_id _
    rw [after, same, latestWith, if_neg covered]
    exact Int64.le_refl _

end DeviceWindows

/-! What the operator does to its keyed state. -/

namespace RollingViews

theorem schedule_timers (s : RollingViews) (atMs timer : Int64)
    (registered : timer ∈ (s.schedule atMs).timers) : timer ∈ s.timers ∨ timer = atMs := by
  simp only [schedule, List.mem_insert_iff] at registered
  rcases registered with new | old
  · exact Or.inr new
  · split at old
    · exact Or.inl (List.mem_of_mem_erase old)
    · exact Or.inl old

section

variable (s : RollingViews) (record : FlowRecord) (nowMs : Int64)

theorem process_windows :
    (s.processElement record nowMs).1.windows = some (s.current.add record) := rfl

theorem process_last_wall :
    (s.processElement record nowMs).1.lastEventWallMs =
      if s.current.clockMs < (s.current.add record).clockMs then some nowMs
      else s.lastEventWallMs := rfl

theorem process_timers (timer : Int64)
    (registered : timer ∈ (s.processElement record nowMs).1.timers) :
    timer ∈ s.timers ∨ timer = nowMs + firstTickMs :=
  schedule_timers _ _ timer registered

end

section

variable (s : RollingViews) (timestamp : Int64)

theorem fire_unset (unset : s.windows = none) :
    (s.fire timestamp).1 =
      { s with timers := s.timers.erase timestamp, pendingTimer := none } := by
  simp only [fire, onTimer, ticked, unset, Option.map_none]

theorem tick_to_fields (w : DeviceWindows) (changed : Bool) :
    (s.tickTo w changed).1.windows = some w ∧
      (s.tickTo w changed).1.lastEventWallMs = s.lastEventWallMs ∧
      (s.tickTo w changed).1.timers = s.timers := by
  cases changed
  · exact ⟨rfl, rfl, rfl⟩
  · exact ⟨rfl, rfl, rfl⟩

theorem fire_some (w : DeviceWindows) (present : s.windows = some w) :
    (s.fire timestamp).1 =
      let moved := w.advanceTo (s.silentClock w timestamp)
      let cleared := { s with timers := s.timers.erase timestamp, pendingTimer := none }
      ((cleared.tickTo moved.1 moved.2).1).settle moved.1 timestamp := by
  have clock : ({ s with timers := s.timers.erase timestamp, pendingTimer := none } :
      RollingViews).ticked timestamp = some (w.advanceTo (s.silentClock w timestamp)) := by
    rw [ticked, present]
    rfl
  simp only [fire, onTimer, clock]

theorem fire_windows (w : DeviceWindows) (present : s.windows = some w) :
    (s.fire timestamp).1.windows =
        (if (w.advanceTo (s.silentClock w timestamp)).1.isEmpty then none
          else some (w.advanceTo (s.silentClock w timestamp)).1) ∧
      (s.fire timestamp).1.lastEventWallMs =
        (if (w.advanceTo (s.silentClock w timestamp)).1.isEmpty then none
          else s.lastEventWallMs) := by
  rw [fire_some s timestamp w present]
  simp only [settle]
  split
  · exact ⟨rfl, rfl⟩
  · have fields := tick_to_fields
      { s with timers := s.timers.erase timestamp, pendingTimer := none }
      (w.advanceTo (s.silentClock w timestamp)).1 (w.advanceTo (s.silentClock w timestamp)).2
    exact ⟨fields.1, fields.2.1⟩

theorem fire_timers (timer : Int64) (registered : timer ∈ (s.fire timestamp).1.timers) :
    timer ∈ s.timers ∨ timer = timestamp + tickMs := by
  cases present : s.windows with
  | none =>
      rw [fire_unset s timestamp present] at registered
      exact Or.inl (List.mem_of_mem_erase registered)
  | some w =>
      have fields := tick_to_fields
        { s with timers := s.timers.erase timestamp, pendingTimer := none }
        (w.advanceTo (s.silentClock w timestamp)).1 (w.advanceTo (s.silentClock w timestamp)).2
      rw [fire_some s timestamp w present] at registered
      simp only [settle] at registered
      split at registered
      · simp only [fields.2.2] at registered
        exact Or.inl (List.mem_of_mem_erase registered)
      · have scheduled := schedule_timers _ _ timer registered
        rw [fields.2.2] at scheduled
        exact scheduled.imp_left List.mem_of_mem_erase

end

end RollingViews

/-- A timer of the views, as it fired: the device clock it left, the wall time, and the wall time
and device clock of the last record before it. -/
structure Tick where
  clockMs : Int64
  wallMs : Int64
  recordClockMs : Int64
  recordWallMs : Int64

/-- The silent clock never runs faster than wall time. -/
def Tick.Paced (tick : Tick) : Prop :=
  tick.clockMs.toInt ≤ tick.recordClockMs.toInt + (tick.wallMs.toInt - tick.recordWallMs.toInt)

instance (tick : Tick) : Decidable tick.Paced := inferInstanceAs (Decidable (_ ≤ _))

inductive ViewsEvent where
  | record (record : FlowRecord) (nowMs : Int64)
  | timer (timestamp nowMs : Int64)

/-- A run of the operator on one key, with the timers that fired. -/
structure ViewsRun where
  views : RollingViews
  wallMs : Int64
  recordClockMs : Int64
  recordWallMs : Int64
  ticks : List Tick

namespace ViewsRun

def start (horizonsMs : List Int64) (key : String) : ViewsRun :=
  ⟨.new horizonsMs key, 0, 0, 0, []⟩

def step (run : ViewsRun) : ViewsEvent → ViewsRun
  | .record record nowMs =>
    let views := (run.views.processElement record nowMs).1
    { views, wallMs := nowMs, recordClockMs := views.current.clockMs, recordWallMs := nowMs
      ticks := run.ticks }
  | .timer timestamp nowMs =>
    let tick := (run.views.ticked timestamp).map fun moved =>
      ⟨moved.1.clockMs, nowMs, run.recordClockMs, run.recordWallMs⟩
    { run with views := (run.views.fire timestamp).1, wallMs := nowMs
               ticks := run.ticks ++ tick.toList }

/-- Processing time does not decrease, a timer fires when it is registered and due, and clock
readings leave room for the next timer. -/
def Allowed (run : ViewsRun) : ViewsEvent → Prop
  | .record _ nowMs => run.wallMs ≤ nowMs ∧ nowMs.toInt + tickMs.toInt ≤ Int64.maxValue.toInt
  | .timer timestamp nowMs =>
    timestamp ∈ run.views.timers ∧ timestamp ≤ nowMs ∧ run.wallMs ≤ nowMs ∧
      nowMs.toInt + tickMs.toInt ≤ Int64.maxValue.toInt

/-- A record that does not move the device clock comes early enough: the newest event time it
leaves, plus the wall time since the record that moved the clock, is not past the clock. -/
def KeepsPace (run : ViewsRun) : ViewsEvent → Prop
  | .record record nowMs =>
    let w := run.views.current
    w.clockMs < record.eventTimeMs ∨ ∀ lastWall ∈ run.views.lastEventWallMs,
      (w.latestWith record.eventTimeMs).toInt + (nowMs.toInt - lastWall.toInt) ≤ w.clockMs.toInt
  | .timer _ _ => True

instance (run : ViewsRun) (event : ViewsEvent) : Decidable (run.Allowed event) := by
  cases event <;> unfold Allowed <;> infer_instance

instance (run : ViewsRun) (event : ViewsEvent) : Decidable (run.KeepsPace event) :=
  match event with
  | .record _ _ => @instDecidableOr _ _ (Int64.decLt _ _)
      (@Option.decidableForallMem _ _ (fun _ => Int.decLe _ _) _)
  | .timer _ _ => instDecidableTrue

/-- What holds between events: nothing held is newer than the clock, the clock is at most as far
past the last record's as wall time is, and the next silent clock starts no further. -/
structure Steady (run : ViewsRun) : Prop where
  walls : 0 ≤ run.recordWallMs.toInt ∧ run.recordWallMs ≤ run.wallMs
  timers : ∀ timer ∈ run.views.timers, 0 ≤ timer.toInt
  lastWall : ∀ lastWall ∈ run.views.lastEventWallMs, 0 ≤ lastWall.toInt
  timed : ∀ w ∈ run.views.windows, w.Timed
  clock : ∀ w ∈ run.views.windows,
    w.clockMs.toInt ≤ run.recordClockMs.toInt + (run.wallMs.toInt - run.recordWallMs.toInt)
  silence : ∀ w ∈ run.views.windows, ∀ lastWall ∈ run.views.lastEventWallMs,
    w.latestEventTime.toInt + (run.recordWallMs.toInt - lastWall.toInt) ≤ run.recordClockMs.toInt
  paced : ∀ tick ∈ run.ticks, tick.Paced

theorem start_steady (horizonsMs : List Int64) (key : String) : (start horizonsMs key).Steady where
  walls := ⟨Int.le_refl _, Int64.le_refl _⟩
  timers := by simp [start, RollingViews.new]
  lastWall := by simp [start, RollingViews.new]
  timed := by simp [start, RollingViews.new]
  clock := by simp [start, RollingViews.new]
  silence := by simp [start, RollingViews.new]
  paced := by simp [start]

theorem current_timed (run : ViewsRun) (steady : run.Steady) : run.views.current.Timed := by
  unfold RollingViews.current
  cases present : run.views.windows with
  | none => exact DeviceWindows.new_timed _
  | some w => exact steady.timed w present

theorem record_steady (run : ViewsRun) (record : FlowRecord) (nowMs : Int64) (steady : run.Steady)
    (allowed : run.Allowed (.record record nowMs)) (pace : run.KeepsPace (.record record nowMs)) :
    (run.step (.record record nowMs)).Steady := by
  obtain ⟨forward, room⟩ := allowed
  have timed := run.current_timed steady
  have clock := run.views.current.add_clock record
  have nonneg : 0 ≤ nowMs.toInt := by
    have walls := steady.walls
    rw [Int64.le_iff_toInt_le] at walls forward
    omega
  have moves : run.views.current.clockMs < (run.views.current.add record).clockMs ↔
      run.views.current.clockMs < record.eventTimeMs := by
    rw [Int64.lt_iff_toInt_lt, Int64.lt_iff_toInt_lt, clock]
    omega
  constructor
  · exact ⟨nonneg, Int64.le_refl _⟩
  · intro timer registered
    rcases run.views.process_timers record nowMs timer registered with old | rfl
    · exact steady.timers timer old
    · have first : firstTickMs.toInt = 1000 := rfl
      have later : tickMs.toInt = 5000 := rfl
      have limit : Int64.maxValue.toInt = 9223372036854775807 := rfl
      rw [Exact.add nowMs firstTickMs (by omega) (by omega)]
      omega
  · intro lastWall member
    simp only [step, RollingViews.process_last_wall] at member
    split at member
    · rw [Option.mem_some_iff] at member
      exact member ▸ nonneg
    · exact steady.lastWall lastWall member
  · intro w member
    simp only [step, RollingViews.process_windows, Option.mem_some_iff] at member
    exact member ▸ DeviceWindows.add_timed _ record timed
  · intro w member
    simp only [step, RollingViews.process_windows, Option.mem_some_iff] at member
    subst member
    simp only [step, RollingViews.current, RollingViews.process_windows, Option.getD_some]
    omega
  · intro w member lastWall wall
    simp only [step, RollingViews.process_windows, Option.mem_some_iff] at member
    simp only [step, RollingViews.process_last_wall] at wall
    subst member
    simp only [step, RollingViews.current, RollingViews.process_windows, Option.getD_some]
    by_cases moved : run.views.current.clockMs < record.eventTimeMs
    · rw [if_pos (moves.mpr moved), Option.mem_some_iff] at wall
      subst wall
      have latest := DeviceWindows.latestEventTime_le_clock _
        (DeviceWindows.add_timed _ record timed)
      rw [Int64.le_iff_toInt_le] at latest
      simp only [RollingViews.current] at latest
      omega
    · rw [if_neg (mt moves.mp moved)] at wall
      have bounded := pace.resolve_left moved lastWall wall
      have late : record.eventTimeMs ≤ run.views.current.clockMs := Int64.not_lt.mp moved
      have latest := DeviceWindows.latest_add_late_le _ record late
      rw [Int64.le_iff_toInt_le] at latest late
      simp only [RollingViews.current] at latest late bounded clock
      omega
  · exact steady.paced

/-- The silence that a timer measures is at most the wall time since the last wall reading. -/
theorem silent_clock_le (run : ViewsRun) (steady : run.Steady) (w : DeviceWindows)
    (present : run.views.windows = some w) (timestamp nowMs : Int64)
    (registered : timestamp ∈ run.views.timers) (due : timestamp ≤ nowMs)
    (forward : run.wallMs ≤ nowMs) :
    (run.views.silentClock w timestamp).toInt ≤
      run.recordClockMs.toInt + (nowMs.toInt - run.recordWallMs.toInt) := by
  have latest := w.latestEventTime_le_clock (steady.timed w present)
  have clock := steady.clock w present
  rw [Int64.le_iff_toInt_le] at latest due forward
  unfold RollingViews.silentClock
  cases wall : run.views.lastEventWallMs with
  | none =>
      simp only [Int64.add_zero]
      omega
  | some lastWall =>
      have silence := steady.silence w present lastWall wall
      have timestampNonneg := steady.timers timestamp registered
      have wallNonneg := steady.lastWall lastWall wall
      have timestampHigh := timestamp.toInt_lt
      have wallHigh := lastWall.toInt_lt
      have difference := Exact.sub timestamp lastWall (by omega) (by omega)
      have elapsed := mathMax_toInt 0 (timestamp - lastWall)
      rw [difference, Int64.toInt_zero] at elapsed
      have sum := toInt_add_le w.latestEventTime (mathMax 0 (timestamp - lastWall)) (by omega)
      simp only
      omega

theorem timer_timers (run : ViewsRun) (timestamp nowMs : Int64) (steady : run.Steady)
    (allowed : run.Allowed (.timer timestamp nowMs)) :
    ∀ timer ∈ (run.views.fire timestamp).1.timers, 0 ≤ timer.toInt := by
  obtain ⟨registered, due, forward, room⟩ := allowed
  intro timer member
  rcases run.views.fire_timers timestamp timer member with old | rfl
  · exact steady.timers timer old
  · have timestampNonneg := steady.timers timestamp registered
    have order := Int64.le_iff_toInt_le.mp due
    have tick : tickMs.toInt = 5000 := rfl
    have limit : Int64.maxValue.toInt = 9223372036854775807 := rfl
    rw [Exact.add timestamp tickMs (by omega) (by omega)]
    omega

theorem timer_clock (run : ViewsRun) (timestamp nowMs : Int64) (steady : run.Steady)
    (allowed : run.Allowed (.timer timestamp nowMs)) {w : DeviceWindows}
    (present : run.views.windows = some w) :
    (w.advanceTo (run.views.silentClock w timestamp)).1.clockMs.toInt ≤
      run.recordClockMs.toInt + (nowMs.toInt - run.recordWallMs.toInt) := by
  obtain ⟨registered, due, forward, _⟩ := allowed
  have silent := run.silent_clock_le steady w present timestamp nowMs registered due forward
  have before := steady.clock w present
  have moved := w.advance_clock (run.views.silentClock w timestamp)
  have advanced := Int64.le_iff_toInt_le.mp forward
  omega

theorem timer_unset (run : ViewsRun) (timestamp nowMs : Int64) (steady : run.Steady)
    (allowed : run.Allowed (.timer timestamp nowMs)) (unset : run.views.windows = none) :
    (run.step (.timer timestamp nowMs)).Steady := by
  have fired := run.views.fire_unset timestamp unset
  have noTick : run.views.ticked timestamp = none := by
    rw [RollingViews.ticked, unset, Option.map_none]
  constructor
  · exact ⟨steady.walls.1, Int64.le_trans steady.walls.2 allowed.2.2.1⟩
  · exact run.timer_timers timestamp nowMs steady allowed
  · simp only [step, fired]
    exact steady.lastWall
  · simp [step, fired, unset]
  · simp [step, fired, unset]
  · simp [step, fired, unset]
  · simp only [step, noTick, Option.map_none, Option.toList_none, List.append_nil]
    exact steady.paced

theorem timer_steady (run : ViewsRun) (timestamp nowMs : Int64) (steady : run.Steady)
    (allowed : run.Allowed (.timer timestamp nowMs)) :
    (run.step (.timer timestamp nowMs)).Steady := by
  cases present : run.views.windows with
  | none => exact run.timer_unset timestamp nowMs steady allowed present
  | some w =>
      have bound := run.timer_clock timestamp nowMs steady allowed present
      have timed := steady.timed w present
      set moved := w.advanceTo (run.views.silentClock w timestamp) with movedEq
      obtain ⟨windows, lastWall⟩ := run.views.fire_windows timestamp w present
      rw [← movedEq] at windows lastWall
      constructor
      · exact ⟨steady.walls.1, Int64.le_trans steady.walls.2 allowed.2.2.1⟩
      · exact run.timer_timers timestamp nowMs steady allowed
      · intro wall member
        simp only [step, lastWall] at member
        split at member
        · cases member
        · exact steady.lastWall wall member
      · intro kept member
        simp only [step, windows] at member
        split at member
        · cases member
        · rw [Option.mem_some_iff] at member
          exact member ▸ w.advance_timed _ timed
      · intro kept member
        simp only [step, windows] at member ⊢
        split at member
        · cases member
        · rw [Option.mem_some_iff] at member
          exact member ▸ bound
      · intro kept member wall wallMember
        simp only [step, windows, lastWall] at member wallMember ⊢
        split at member
        · cases member
        · next nonempty =>
            rw [Option.mem_some_iff] at member
            rw [if_neg nonempty] at wallMember
            have silence := steady.silence w present wall wallMember
            have latest := w.advance_latest_le (run.views.silentClock w timestamp) timed
              (Bool.eq_false_iff.mpr nonempty)
            rw [← movedEq, member, Int64.le_iff_toInt_le] at latest
            omega
      · intro tick member
        have ticked : run.views.ticked timestamp = some moved := by
          rw [RollingViews.ticked, present]
          rfl
        simp only [step, ticked, Option.map_some, Option.toList_some, List.mem_append,
          List.mem_singleton] at member
        rcases member with old | rfl
        · exact steady.paced tick old
        · exact bound

theorem step_steady (run : ViewsRun) (event : ViewsEvent) (steady : run.Steady)
    (met : run.Allowed event ∧ run.KeepsPace event) : (run.step event).Steady := by
  cases event with
  | record record nowMs => exact run.record_steady record nowMs steady met.1 met.2
  | timer timestamp nowMs => exact run.timer_steady timestamp nowMs steady met.1

end ViewsRun

/-- In a run whose late records all keep pace, every timer leaves the device clock at most as far
past the last record's clock as wall time is past that record. -/
theorem silent_clock_paced (horizonsMs : List Int64) (key : String) (events : List ViewsEvent)
    (met : Runs.Meets ViewsRun.step (fun run event => run.Allowed event ∧ run.KeepsPace event)
      (.start horizonsMs key) events) :
    ∀ tick ∈ (Runs.run ViewsRun.step (.start horizonsMs key) events).ticks, tick.Paced :=
  (Runs.run_invariant ViewsRun.step_steady (ViewsRun.start_steady horizonsMs key) met).paced

/-- A probe, a tick of silence, and a newer probe after it. -/
def promptRun : List ViewsEvent :=
  [.record (DeviceWindows.probe 100 22) 0, .timer 1000 1000,
    .record (DeviceWindows.probe 2000 23) 2000, .timer 3000 3000]

/-- The same with a second probe that is older than the silent clock. -/
def lateRun : List ViewsEvent :=
  [.record (DeviceWindows.probe 100 22) 0, .timer 1000 1000,
    .record (DeviceWindows.probe 500 23) 2000, .timer 3000 3000]

theorem silent_clock_paced_prompt :
    promptRun ≠ [] ∧ ∀ tick ∈ (Runs.run ViewsRun.step
      (.start DeviceWindows.minuteAndQuarter "device") promptRun).ticks, tick.Paced :=
  ⟨List.cons_ne_nil _ _,
    silent_clock_paced DeviceWindows.minuteAndQuarter "device" promptRun (by decide)⟩

/-- The late probe leaves the clock at 1100, and a second later the timer moves it to 3500. -/
theorem late_record_runs_ahead :
    Runs.Meets ViewsRun.step ViewsRun.Allowed (.start DeviceWindows.minuteAndQuarter "device")
        lateRun ∧
      ∃ tick ∈ (Runs.run ViewsRun.step (.start DeviceWindows.minuteAndQuarter "device")
        lateRun).ticks, tick.clockMs = 3500 ∧ tick.recordClockMs = 1100 ∧ ¬ tick.Paced := by
  decide

end PiAgents.Detection
