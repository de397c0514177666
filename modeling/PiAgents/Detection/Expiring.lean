import PiAgents.Detection.Evidence
import PiAgents.Detection.Timers

/-! What `RollingViews` holds expires with the processing time of its timers: once they are as far
past the last record that moved the device clock as the longest horizon is, the state is cleared. -/

namespace PiAgents.Detection

def farMs : Int64 := 2305843009213693952

theorem farMs_toInt : farMs.toInt = 2305843009213693952 := rfl

namespace DeviceWindows

/-- The event times held are positive and can be added to. -/
def Near (w : DeviceWindows) : Prop :=
  ∀ h ∈ w.horizons, ∀ c ∈ h.contributions, 0 < c.eventTimeMs ∧ c.eventTimeMs < farMs

theorem near_new (lengths : List Int64) : (new lengths).Near := by
  intro h member c held
  rcases List.mem_map.mp member with ⟨length, _, rfl⟩
  cases held

variable {w : DeviceWindows}

theorem Near.advance (near : w.Near) (clockMs : Int64) : (w.advanceTo clockMs).1.Near := by
  intro moved member c held
  rcases w.advance_subset clockMs moved member with ⟨h, inside, suffix⟩
  exact near h inside c (suffix.subset held)

theorem Near.add (near : w.Near) (record : FlowRecord) (positive : 0 < record.eventTimeMs)
    (bounded : record.eventTimeMs < farMs) : (w.add record).Near := by
  intro joined member c held
  rcases mem_add member with ⟨h, inside, rfl⟩
  split at held
  · rcases mem_insertFromTail.mp held with rfl | old
    · exact ⟨positive, bounded⟩
    · exact near.advance _ h inside c old
  · exact near.advance _ h inside c held

theorem le_newestTime (tracked : w.Tracked) {h : Horizon} (member : h ∈ w.horizons)
    {c : Contribution} (held : c ∈ h.contributions) : c.eventTimeMs ≤ w.newestTime := by
  rcases List.eq_nil_or_concat h.contributions with none | ⟨front, last, split⟩
  · rw [none] at held
    cases held
  · rw [List.concat_eq_append] at split
    have newest : last.eventTimeMs ≤ w.newestTime := by
      apply (w.newestTime_le_iff w.newestTime).mp (Int64.le_refl _) h member last
      rw [split, List.getLast?_concat]
      rfl
    have sorted := (tracked h member).sorted
    rw [split] at sorted held
    rcases List.mem_append.mp held with before | isLast
    · have order := (List.pairwise_append.mp sorted).2.2 c before last (List.mem_singleton_self last)
      exact Int64.le_trans order newest
    · rw [List.mem_singleton.mp isLast]
      exact newest

theorem latest_of_near (tracked : w.Tracked) (near : w.Near) (full : w.isEmpty = false) :
    (0 < w.latestEventTime.toInt ∧ w.latestEventTime.toInt < 2305843009213693952) ∧
      ∀ h ∈ w.horizons, ∀ c ∈ h.contributions, c.eventTimeMs ≤ w.latestEventTime := by
  have below : w.newestTime ≤ farMs - 1 := by
    apply (w.newestTime_le_iff _).mpr
    intro h member last newest
    have far := (near h member last (List.mem_of_getLast? newest)).2
    rw [Int64.lt_iff_toInt_lt, farMs_toInt] at far
    rw [Int64.le_iff_toInt_le]
    exact Int.le_of_lt_add_one far
  rw [isEmpty, List.all_eq_false] at full
  rcases full with ⟨h, member, some'⟩
  rcases List.exists_mem_of_ne_nil h.contributions (fun none => some' (List.isEmpty_iff.mpr none))
    with ⟨c, held⟩
  have above := le_newestTime tracked member held
  have positive := (near h member c held).1
  rw [Int64.lt_iff_toInt_lt] at positive
  rw [Int64.le_iff_toInt_le] at above below
  have zero : (0 : Int64).toInt = 0 := rfl
  have limit : (farMs - 1).toInt = 2305843009213693951 := rfl
  have least : Int64.minValue.toInt = -9223372036854775808 := rfl
  have set : w.newestTime ≠ Int64.minValue := by
    intro none
    rw [none] at above
    omega
  rw [latestEventTime, if_neg set]
  exact ⟨⟨by omega, by omega⟩, fun h member c held => le_newestTime tracked member held⟩

theorem advance_empty (covering : w.Covering) (near : w.Near) {longest : Int}
    (lengths : ∀ h ∈ w.horizons, 0 < h.lengthMs ∧ h.lengthMs.toInt ≤ longest) (clockMs : Int64)
    (past : ∀ h ∈ w.horizons, ∀ c ∈ h.contributions,
      c.eventTimeMs.toInt + longest ≤ clockMs.toInt) :
    (w.advanceTo clockMs).1.isEmpty = true := by
  apply List.all_eq_true.mpr
  intro moved member
  apply List.isEmpty_iff.mpr
  apply List.eq_nil_iff_forall_not_mem.mpr
  intro c inside
  have window := (covering.advance clockMs).held moved member c inside
  rcases w.advance_subset clockMs moved member with ⟨h, held, suffix⟩
  have old := past h held c (suffix.subset inside)
  have positive := (near h held c (suffix.subset inside)).1
  have clock := w.advance_clock clockMs
  have length : moved.lengthMs ∈ w.horizons.map Horizon.lengthMs := by
    rw [← w.advance_lengths clockMs]
    exact List.mem_map_of_mem member
  rcases List.mem_map.mp length with ⟨long, isLong, same⟩
  have bounds := lengths long isLong
  rw [same] at bounds
  have cutoff := toInt_cutoff (w.advanceTo clockMs).1.clockMs moved.lengthMs
    (Int64.lt_of_lt_of_le positive window.2) bounds.1
  have newer := Int64.lt_iff_toInt_lt.mp window.1
  omega

end DeviceWindows

namespace RollingViews

/-- Nothing is held, or what is held is in reach of the timers: the registered one comes at least
a second after the record that moved the device clock last. -/
inductive Aging (s : RollingViews) (wallMs : Int64) : Prop where
  | cleared (windows : s.windows = none) (lastWall : s.lastEventWallMs = none)
  | holding (w : DeviceWindows) (lastWallMs timerMs : Int64) (windows : s.windows = some w)
      (lastWall : s.lastEventWallMs = some lastWallMs) (pending : s.pendingTimer = some timerMs)
      (covering : w.Covering) (near : w.Near)
      (clock : 0 < w.clockMs.toInt ∧ w.clockMs.toInt < 4611686018427387904)
      (walls : 0 ≤ lastWallMs.toInt ∧ lastWallMs.toInt ≤ wallMs.toInt)
      (timer : lastWallMs.toInt + 1000 ≤ timerMs.toInt ∧ timerMs.toInt ≤ wallMs.toInt + 5000)

/-- How often the timer fires until the state is cleared, at most. -/
def ticksLeft (longest : Int) (s : RollingViews) : Nat :=
  match s.lastEventWallMs, s.pendingTimer with
  | some lastWallMs, some timerMs =>
    ((lastWallMs.toInt + longest - timerMs.toInt).toNat + 4999) / 5000 + 1
  | _, _ => 0

variable {s : RollingViews} {wallMs : Int64}

theorem Aging.later (aging : s.Aging wallMs) {nowMs : Int64} (forward : wallMs ≤ nowMs) :
    s.Aging nowMs := by
  rw [Int64.le_iff_toInt_le] at forward
  cases aging with
  | cleared windows lastWall => exact .cleared windows lastWall
  | holding w lastWallMs timerMs windows lastWall pending covering near clock walls timer =>
      exact .holding w lastWallMs timerMs windows lastWall pending covering near clock
        ⟨walls.1, by omega⟩ ⟨timer.1, by omega⟩

theorem Aging.current (aging : s.Aging wallMs) :
    s.current.Covering ∧ s.current.Near ∧ s.current.clockMs.toInt < 4611686018427387904 ∧
      (s.current.clockMs = Int64.minValue ∨ ∃ lastWallMs, s.lastEventWallMs = some lastWallMs ∧
        0 ≤ lastWallMs.toInt ∧ lastWallMs.toInt ≤ wallMs.toInt) := by
  cases aging with
  | cleared windows lastWall =>
      have fresh : s.current = .new s.horizonsMs := by
        rw [RollingViews.current, windows, Option.getD_none]
      rw [fresh]
      exact ⟨DeviceWindows.covering_new _, DeviceWindows.near_new _,
        show Int64.minValue.toInt < _ by decide, Or.inl rfl⟩
  | holding w lastWallMs timerMs windows lastWall pending covering near clock walls timer =>
      have held : s.current = w := by
        rw [RollingViews.current, windows, Option.getD_some]
      rw [held]
      exact ⟨covering, near, clock.2, Or.inr ⟨lastWallMs, lastWall, walls⟩⟩

theorem Aging.process (aging : s.Aging wallMs) (record : FlowRecord) {nowMs : Int64}
    (forward : wallMs ≤ nowMs) (nonneg : 0 ≤ wallMs.toInt) (now : nowMs < farMs)
    (positive : 0 < record.eventTimeMs) (bounded : record.eventTimeMs < farMs) :
    (s.processElement record nowMs).1.Aging nowMs := by
  rcases aging.current with ⟨covering, near, clock, walls⟩
  have early := Int64.lt_iff_toInt_lt.mp positive
  have far := Int64.lt_iff_toInt_lt.mp bounded
  have zero : (0 : Int64).toInt = 0 := rfl
  have second : firstTickMs.toInt = 1000 := rfl
  have moved := s.current.add_clock record
  rw [Int64.le_iff_toInt_le] at forward
  rw [Int64.lt_iff_toInt_lt, farMs_toInt] at now
  rw [farMs_toInt] at far
  have timer := Exact.add nowMs firstTickMs (by omega) (by omega)
  have lastWall : ∃ lastWallMs, (s.processElement record nowMs).1.lastEventWallMs =
      some lastWallMs ∧ 0 ≤ lastWallMs.toInt ∧ lastWallMs.toInt ≤ nowMs.toInt := by
    rw [process_last_wall]
    split
    · exact ⟨nowMs, rfl, by omega, Int.le_refl _⟩
    · next still =>
        rcases walls with unset | ⟨lastWallMs, known, bounds⟩
        · rw [unset, Int64.lt_iff_toInt_lt, moved, unset] at still
          have least : Int64.minValue.toInt = -9223372036854775808 := rfl
          omega
        · exact ⟨lastWallMs, known, bounds.1, by omega⟩
  rcases lastWall with ⟨lastWallMs, known, bounds⟩
  exact .holding _ lastWallMs _ (s.process_windows record nowMs) known rfl (covering.add record)
    (near.add record positive bounded) (by omega) bounds (by omega)

theorem silentClock_toInt {w : DeviceWindows} {lastWallMs timerMs : Int64}
    (lastWall : s.lastEventWallMs = some lastWallMs)
    (latest : 0 < w.latestEventTime.toInt ∧ w.latestEventTime.toInt < 2305843009213693952)
    (walls : 0 ≤ lastWallMs.toInt ∧ lastWallMs.toInt ≤ timerMs.toInt)
    (timer : timerMs < farMs) : (s.silentClock w timerMs).toInt =
      w.latestEventTime.toInt + (timerMs.toInt - lastWallMs.toInt) := by
  rw [Int64.lt_iff_toInt_lt, farMs_toInt] at timer
  have difference := Exact.sub timerMs lastWallMs (by omega) (by omega)
  have elapsed := mathMax_toInt 0 (timerMs - lastWallMs)
  have zero : (0 : Int64).toInt = 0 := rfl
  rw [difference, zero] at elapsed
  simp only [silentClock, lastWall]
  rw [Exact.add _ _ (by omega) (by omega), elapsed]
  omega

/-- What a timer finds: it advances the windows by its distance to the record that moved the device
clock last. -/
theorem Aging.reads (aging : s.Aging wallMs) (armed : s.Armed) {timestamp nowMs : Int64}
    (due : timestamp ∈ s.timers) (reached : timestamp ≤ nowMs) (now : nowMs < farMs)
    {w : DeviceWindows} (windows : s.windows = some w) (full : w.isEmpty = false) :
    w.Covering ∧ w.Near ∧ (∀ h ∈ w.horizons, ∀ c ∈ h.contributions,
        c.eventTimeMs ≤ w.latestEventTime) ∧
      (0 < (w.advanceTo (s.silentClock w timestamp)).1.clockMs.toInt ∧
        (w.advanceTo (s.silentClock w timestamp)).1.clockMs.toInt < 4611686018427387904) ∧
      ∃ lastWallMs, s.lastEventWallMs = some lastWallMs ∧ 0 ≤ lastWallMs.toInt ∧
        lastWallMs.toInt + 1000 ≤ timestamp.toInt ∧ (s.silentClock w timestamp).toInt =
          w.latestEventTime.toInt + (timestamp.toInt - lastWallMs.toInt) := by
  have registered := (armed.due due).1
  cases aging with
  | cleared none lastWall =>
      rw [windows] at none
      cases none
  | holding v lastWallMs timerMs held lastWall pending covering near clock walls timer =>
      cases registered.symm.trans pending
      cases windows.symm.trans held
      rcases DeviceWindows.latest_of_near covering.tracked near full with ⟨latest, newest⟩
      have before : timestamp < farMs := Int64.lt_of_le_of_lt reached now
      have silent := silentClock_toInt lastWall latest ⟨walls.1, by omega⟩ before
      have moved := w.advance_clock (s.silentClock w timestamp)
      rw [Int64.lt_iff_toInt_lt, farMs_toInt] at before
      exact ⟨covering, near, newest, by omega, lastWallMs, lastWall, walls.1, timer.1, silent⟩

theorem Aging.fire (aging : s.Aging wallMs) (armed : s.Armed) {timestamp nowMs : Int64}
    (due : timestamp ∈ s.timers) (reached : timestamp ≤ nowMs) (now : nowMs < farMs)
    {longest : Int} (full : ∀ w ∈ s.windows, w.isEmpty = false)
    (lengths : ∀ w ∈ s.windows, ∀ h ∈ w.horizons, 0 < h.lengthMs ∧ h.lengthMs.toInt ≤ longest) :
    (s.fire timestamp).1.Aging nowMs ∧
      (s.fire timestamp).1.ticksLeft longest + 1 ≤ s.ticksLeft longest := by
  rcases armed.due due with ⟨pending, w, windows⟩
  rcases aging.reads armed due reached now windows (full w windows) with
    ⟨covering, near, newest, clock, lastWallMs, lastWall, nonneg, later, silent⟩
  rcases s.fire_windows timestamp w windows with ⟨left', lastLeft⟩
  have next := s.fire_pending timestamp w windows
  have before := Int64.lt_iff_toInt_lt.mp (Int64.lt_of_le_of_lt reached now)
  have tick : tickMs.toInt = 5000 := rfl
  rw [farMs_toInt] at before
  rw [Int64.le_iff_toInt_le] at reached
  have sum := Exact.add timestamp tickMs (by omega) (by omega)
  by_cases empty : (w.advanceTo (s.silentClock w timestamp)).1.isEmpty = true
  · rw [if_pos empty] at left' lastLeft next
    refine ⟨.cleared left' lastLeft, ?_⟩
    simp only [ticksLeft, next, lastLeft, lastWall, pending]
    omega
  · rw [if_neg empty] at left' lastLeft next
    have early : timestamp.toInt - lastWallMs.toInt < longest := by
      by_contra late
      apply empty
      apply DeviceWindows.advance_empty covering near (lengths w windows)
      intro h member c inside
      have order := Int64.le_iff_toInt_le.mp (newest h member c inside)
      omega
    constructor
    · exact .holding _ lastWallMs _ left' (lastLeft.trans lastWall) next
        (covering.advance _) (near.advance _) clock ⟨nonneg, by omega⟩ (by omega)
    · simp only [ticksLeft, next, lastLeft, lastWall, pending, sum, tick]
      omega

/-- At most one firing for each five seconds of the longest horizon, and two more. -/
theorem Aging.ticksLeft_le (aging : s.Aging wallMs) (longest : Nat) :
    s.ticksLeft longest ≤ longest / 5000 + 2 := by
  cases aging with
  | cleared windows lastWall =>
      simp only [ticksLeft, lastWall]
      exact Nat.zero_le _
  | holding w lastWallMs timerMs windows lastWall pending covering near clock walls timer =>
      simp only [ticksLeft, lastWall, pending]
      omega

end RollingViews

end PiAgents.Detection
