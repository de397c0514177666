import PiAgents.Detection.DeviceClock

/-! The windows of a replay: records only, no timer. What a timer does to the windows of a run is
an advance of the replay's, which the next newer record makes up for. -/

namespace PiAgents.Detection

namespace Horizon

theorem expire_loop_twice (first second : Int64) (order : first ≤ second) (h : Horizon) :
    let expired := (h.expireLoop first h.contributions).1
    (expired.expireLoop second expired.contributions).1 =
      (h.expireLoop second h.contributions).1 := by
  generalize held : h.contributions = contributions
  induction contributions generalizing h with
  | nil =>
      simp only [expireLoop]
      rw [held]
      rfl
  | cons c rest ih =>
      by_cases old : c.eventTimeMs ≤ first
      · have older : c.eventTimeMs ≤ second := Int64.le_trans old order
        simp only [expireLoop, old, older, if_true]
        exact ih (h.pollFirst c rest) (h.poll_first_contributions c rest)
      · have kept : h.expireLoop first (c :: rest) = (h, false) := by
          simp only [expireLoop, old, if_false]
        simp only [kept]
        rw [held]

theorem expire_twice (h : Horizon) (first second : Int64)
    (order : first - h.lengthMs ≤ second - h.lengthMs) :
    ((h.expire first).1.expire second).1 = (h.expire second).1 := by
  rw [expire, expire_length]
  exact h.expire_loop_twice _ _ order

theorem expire_unchanged (h : Horizon) (clockMs : Int64) (same : (h.expire clockMs).2 = false) :
    (h.expire clockMs).1 = h := by
  unfold expire at same ⊢
  cases held : h.contributions with
  | nil => rfl
  | cons c rest =>
      rw [held] at same
      by_cases old : c.eventTimeMs ≤ clockMs - h.lengthMs
      · simp [expireLoop, old] at same
      · simp only [expireLoop, old, if_false]

theorem eq_empty_of_lookup {Value : Type} (map : AList (fun _ : String => Value))
    (absent : ∀ key, map.lookup key = none) : map = ∅ := by
  apply AList.ext
  apply List.eq_nil_iff_forall_not_mem.mpr
  intro entry member
  have key : entry.1 ∈ map := List.mem_map.mpr ⟨entry, member, rfl⟩
  exact AList.lookup_eq_none.mp (absent entry.1) key

theorem Tracks.emptied {h : Horizon} (tracks : h.Tracks) (nothing : h.contributions = []) :
    h = new h.lengthMs := by
  obtain ⟨lengthMs, contributions, remoteIps, targets, bytes, failedTargets⟩ := h
  have ips := tracks.remoteIps
  have known := tracks.targets
  have total := tracks.bytes
  have failed := tracks.failedTargets
  simp only at nothing ips known total failed
  subst nothing
  rw [eq_empty_of_lookup remoteIps ips, eq_empty_of_lookup targets known, total, failed]
  rfl

theorem new_expire (lengthMs clockMs : Int64) : ((new lengthMs).expire clockMs).1 = new lengthMs :=
  rfl

end Horizon

namespace DeviceWindows

def Tracked (w : DeviceWindows) : Prop := ∀ h ∈ w.horizons, h.Tracks

/-- Advances within positive clocks and lengths do not wrap. -/
structure Forward (w : DeviceWindows) : Prop where
  clock : 0 < w.clockMs
  lengths : ∀ h ∈ w.horizons, 0 < h.lengthMs
  tracked : w.Tracked

theorem advance_past (w : DeviceWindows) (clockMs : Int64) (past : clockMs ≤ w.clockMs) :
    w.advanceTo clockMs = (w, false) := if_pos past

theorem advance_newer (w : DeviceWindows) (clockMs : Int64) (newer : w.clockMs < clockMs) :
    w.advanceTo clockMs = ({ horizons := w.horizons.map fun h => (h.expire clockMs).1, clockMs },
      w.horizons.any fun h => (h.expire clockMs).2) :=
  if_neg (Int64.not_le.mpr newer)

theorem advance_twice (w : DeviceWindows) (forward : w.Forward) (first second : Int64)
    (order : first ≤ second) :
    ((w.advanceTo first).1.advanceTo second).1 = (w.advanceTo second).1 := by
  by_cases past : first ≤ w.clockMs
  · rw [advance_past w first past]
  · have newer := Int64.not_le.mp past
    have newest : w.clockMs < second := Int64.lt_of_lt_of_le newer order
    rw [advance_newer w first newer, advance_newer w second newest]
    by_cases same : second ≤ first
    · have equal : second = first := Int64.le_antisymm same order
      subst equal
      rw [advance_past _ _ (Int64.le_refl _)]
    · rw [advance_newer _ _ (Int64.not_le.mp same), DeviceWindows.mk.injEq]
      refine ⟨?_, rfl⟩
      rw [List.map_map]
      apply List.map_congr_left
      intro h member
      apply h.expire_twice
      have positive := Int64.lt_trans forward.clock newer
      rw [Int64.le_iff_toInt_le, toInt_cutoff first h.lengthMs positive (forward.lengths h member),
        toInt_cutoff second h.lengthMs (Int64.lt_of_lt_of_le positive order)
          (forward.lengths h member)]
      rw [Int64.le_iff_toInt_le] at order
      omega

theorem advance_tracked (w : DeviceWindows) (clockMs : Int64) (tracked : w.Tracked) :
    (w.advanceTo clockMs).1.Tracked := by
  unfold advanceTo
  split
  · exact tracked
  · intro expired member
    obtain ⟨h, inside, rfl⟩ := List.mem_map.mp member
    exact h.expire_loop_tracks _ (tracked h inside)

theorem add_tracked (w : DeviceWindows) (record : FlowRecord) (tracked : w.Tracked) :
    (w.add record).Tracked := by
  have base := w.advance_tracked (mathMax w.clockMs record.eventTimeMs) tracked
  intro joined member
  obtain ⟨h, inside, rfl⟩ := List.mem_map.mp member
  split
  · exact h.add_tracks _ (base h inside)
  · exact base h inside

theorem add_lengths (w : DeviceWindows) (record : FlowRecord) :
    (w.add record).horizons.map Horizon.lengthMs = w.horizons.map Horizon.lengthMs := by
  rw [← w.advance_lengths (mathMax w.clockMs record.eventTimeMs)]
  have joined : (w.add record).horizons =
      (w.advanceTo (mathMax w.clockMs record.eventTimeMs)).1.horizons.map fun h =>
        if (w.advanceTo (mathMax w.clockMs record.eventTimeMs)).1.clockMs - h.lengthMs <
          record.eventTimeMs then h.add (Contribution.of record) else h := rfl
  rw [joined, List.map_map]
  apply List.map_congr_left
  intro h member
  simp only [Function.comp_apply]
  split
  · rfl
  · rfl

/-- `add` reads of the windows what the advance to the new clock leaves. -/
theorem add_eq_of_advance (w v : DeviceWindows) (record : FlowRecord)
    (newer : w.clockMs < record.eventTimeMs) (newerToo : v.clockMs < record.eventTimeMs)
    (same : (w.advanceTo record.eventTimeMs).1 = (v.advanceTo record.eventTimeMs).1) :
    w.add record = v.add record := by
  have clock : mathMax w.clockMs record.eventTimeMs = record.eventTimeMs :=
    if_pos (Int64.le_of_lt newer)
  have clockToo : mathMax v.clockMs record.eventTimeMs = record.eventTimeMs :=
    if_pos (Int64.le_of_lt newerToo)
  have first : (Contribution.of record).eventTimeMs = record.eventTimeMs := rfl
  simp only [add, first, clock, clockToo, same]

/-- A newer record makes up for the advances before it. -/
theorem add_advanced (w : DeviceWindows) (forward : w.Forward) (clockMs : Int64)
    (record : FlowRecord) (behind : w.clockMs ≤ clockMs) (newer : clockMs < record.eventTimeMs) :
    (w.advanceTo clockMs).1.add record = w.add record := by
  have clock := w.advance_clock clockMs
  have order := newer
  rw [Int64.le_iff_toInt_le] at behind
  rw [Int64.lt_iff_toInt_lt] at newer
  apply add_eq_of_advance
  · rw [Int64.lt_iff_toInt_lt]
    omega
  · rw [Int64.lt_iff_toInt_lt]
    omega
  · exact w.advance_twice forward clockMs record.eventTimeMs (Int64.le_of_lt order)

theorem add_emptied (w : DeviceWindows) (forward : w.Forward) (clockMs : Int64)
    (record : FlowRecord) (behind : w.clockMs ≤ clockMs) (newer : clockMs < record.eventTimeMs)
    (emptied : (w.advanceTo clockMs).1.isEmpty) :
    (new (w.horizons.map Horizon.lengthMs)).add record = w.add record := by
  rw [← w.add_advanced forward clockMs record behind newer]
  have renewed : (w.advanceTo clockMs).1.horizons =
      (w.horizons.map Horizon.lengthMs).map Horizon.new := by
    rw [← w.advance_lengths clockMs, List.map_map]
    nth_rewrite 1 [← List.map_id (w.advanceTo clockMs).1.horizons]
    apply List.map_congr_left
    intro h member
    have nothing := List.isEmpty_iff.mp (List.all_eq_true.mp emptied h member)
    exact (w.advance_tracked clockMs forward.tracked h member).emptied nothing
  have positive : (new (w.horizons.map Horizon.lengthMs)).clockMs < record.eventTimeMs :=
    Int64.lt_of_le_of_lt (Int64.minValue_le _) newer
  have clock := w.advance_clock clockMs
  have later : (w.advanceTo clockMs).1.clockMs < record.eventTimeMs := by
    rw [Int64.le_iff_toInt_le] at behind
    rw [Int64.lt_iff_toInt_lt] at newer ⊢
    omega
  apply add_eq_of_advance
  · exact positive
  · exact later
  · rw [advance_newer _ _ positive, advance_newer _ _ later, renewed]
    rfl

theorem add_forward (w : DeviceWindows) (record : FlowRecord) (tracked : w.Tracked)
    (lengths : ∀ h ∈ w.horizons, 0 < h.lengthMs) (positive : 0 < record.eventTimeMs) :
    (w.add record).Forward where
  clock := by
    have clock := w.add_clock record
    rw [Int64.lt_iff_toInt_lt] at positive ⊢
    omega
  lengths := by
    intro h member
    have kept : h.lengthMs ∈ w.horizons.map Horizon.lengthMs :=
      w.add_lengths record ▸ List.mem_map_of_mem member
    obtain ⟨before, inside, same⟩ := List.mem_map.mp kept
    exact same ▸ lengths before inside
  tracked := w.add_tracked record tracked

end DeviceWindows

end PiAgents.Detection
