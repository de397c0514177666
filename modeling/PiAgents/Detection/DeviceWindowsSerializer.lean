import PiAgents.Lib.ModifiedUtf8
import PiAgents.Detection.WindowSpec

/-! The checkpoint of a device's windows: horizons, clock and contributions are written, and the
aggregates are built again from the contributions. -/

namespace PiAgents.Detection

open ByteStream ModifiedUtf8

def writeInt (v : Int32) : List UInt8 := toBeBytes 4 v.toUInt32.toNat

def writeLong (v : Int64) : List UInt8 := toBeBytes 8 v.toUInt64.toNat

def writeBoolean (v : Bool) : List UInt8 := [if v then 1 else 0]

def readInt : Reader Int32 := do
  let n ← readNumber 4
  return (UInt32.ofNat n).toInt32

def readLong : Reader Int64 := do
  let n ← readNumber 8
  return (UInt64.ofNat n).toInt64

def readBoolean : Reader Bool := do
  let byte ← readByte
  return byte ≠ 0

/-- A size for a new array. A negative one is an exception. -/
def readSize : Reader Nat := do
  let n ← readInt
  if 0 ≤ n then return n.toInt.toNat else failure

namespace DeviceWindows

/-- Rebuilds state from serialized contributions (already in time order). -/
def restore (w : DeviceWindows) (clockMs : Int64) (contributions : List (List Contribution)) :
    DeviceWindows where
  horizons := List.zipWith (fun h held => Runs.run Horizon.add h held) w.horizons contributions
  clockMs := clockMs

def horizonLengths (w : DeviceWindows) : List Int64 := w.horizons.map Horizon.lengthMs

end DeviceWindows

namespace DeviceWindowsSerializer

def contributions (w : DeviceWindows) : List (List Contribution) :=
  w.horizons.map Horizon.contributions

def copy (source : DeviceWindows) : DeviceWindows :=
  (DeviceWindows.new source.horizonLengths).restore source.clockMs (contributions source)

/-- Without bytes a string was too long. -/
def writeContribution (c : Contribution) : Option (List UInt8) := do
  let remoteIp ← writeUtf c.remoteIp
  let target ← writeUtf c.target
  let eventId ← writeUtf c.eventId
  return writeLong c.eventTimeMs ++ (remoteIp ++ (target ++ (writeLong c.bytes ++
    (writeBoolean c.failed ++ (eventId ++ writeLong c.ingestTimeMs)))))

def writeHorizon (horizon : List Contribution) : Option (List UInt8) := do
  let written ← horizon.mapM writeContribution
  return writeInt (Int32.ofNat horizon.length) ++ written.flatten

def serialize (w : DeviceWindows) : Option (List UInt8) := do
  let written ← (contributions w).mapM writeHorizon
  return writeInt (Int32.ofNat w.horizonLengths.length) ++ (w.horizonLengths.flatMap writeLong ++
    (writeLong w.clockMs ++ written.flatten))

def readContribution : Reader Contribution := do
  let eventTimeMs ← readLong
  let remoteIp ← readUtf
  let target ← readUtf
  let bytes ← readLong
  let failed ← readBoolean
  let eventId ← readUtf
  let ingestTimeMs ← readLong
  return ⟨eventTimeMs, remoteIp, target, bytes, failed, eventId, ingestTimeMs⟩

def readHorizon : Reader (List Contribution) := do
  let count ← readSize
  readMany count readContribution

def deserialize : Reader DeviceWindows := do
  let n ← readSize
  let lengths ← readMany n readLong
  let clock ← readLong
  let all ← readMany n readHorizon
  return (DeviceWindows.new lengths).restore clock all

end DeviceWindowsSerializer

/-! What is written is read. -/

private theorem reads_int (v : Int32) : Reads readInt (writeInt v) v := by
  have bound : v.toUInt32.toNat < 256 ^ 4 := v.toUInt32.toNat_lt
  apply (reads_number bound).last
  rw [UInt32.ofNat_toNat, Int32.toInt32_toUInt32]

private theorem reads_long (v : Int64) : Reads readLong (writeLong v) v := by
  have bound : v.toUInt64.toNat < 256 ^ 8 := v.toUInt64.toNat_lt
  apply (reads_number bound).last
  rw [UInt64.ofNat_toNat, Int64.toInt64_toUInt64]

private theorem reads_boolean (v : Bool) : Reads readBoolean (writeBoolean v) v := by
  cases v with
  | false => exact (reads_byte 0).last rfl
  | true => exact (reads_byte 1).last rfl

private theorem reads_size {n : Nat} (bound : n < 2147483648) :
    Reads readSize (writeInt (Int32.ofNat n)) n := by
  apply (reads_int _).last
  have value : (Int32.ofNat n).toInt = n := Int32.toInt_ofNat_of_lt bound
  have positive : 0 ≤ Int32.ofNat n := by
    rw [Int32.le_iff_toInt_le, value]
    exact Int.natCast_nonneg n
  rw [if_pos positive, value, Int.toNat_natCast]

namespace DeviceWindowsSerializer

/-- The strings of the contribution can be written. -/
structure Writable (c : Contribution) : Prop where
  remoteIp : Fits c.remoteIp
  target : Fits c.target
  eventId : Fits c.eventId

def contributionBytes (c : Contribution) : List UInt8 :=
  writeLong c.eventTimeMs ++ (utfBytes c.remoteIp ++ (utfBytes c.target ++ (writeLong c.bytes ++
    (writeBoolean c.failed ++ (utfBytes c.eventId ++ writeLong c.ingestTimeMs)))))

theorem writeContribution_of_writable {c : Contribution} (writable : Writable c) :
    writeContribution c = some (contributionBytes c) := by
  rw [writeContribution, writeUtf_of_fits writable.remoteIp, writeUtf_of_fits writable.target,
    writeUtf_of_fits writable.eventId]
  rfl

theorem reads_contribution {c : Contribution} (writable : Writable c) :
    Reads readContribution (contributionBytes c) c :=
  (reads_long c.eventTimeMs).bind <| (reads_utf writable.remoteIp).bind <|
    (reads_utf writable.target).bind <| (reads_long c.bytes).bind <|
      (reads_boolean c.failed).bind <| (reads_utf writable.eventId).bind <|
        (reads_long c.ingestTimeMs).last rfl

private theorem mapM_of_total {α β : Type} {write : α → Option β} {total : α → β} {values : List α}
    (same : ∀ value ∈ values, write value = some (total value)) :
    values.mapM write = some (values.map total) := by
  induction values with
  | nil => rfl
  | cons value rest ih =>
      have later := ih fun other member => same other (List.mem_cons_of_mem _ member)
      rw [List.mapM_cons, same value (List.mem_cons_self ..), later]
      rfl

def horizonBytes (horizon : List Contribution) : List UInt8 :=
  writeInt (Int32.ofNat horizon.length) ++ horizon.flatMap contributionBytes

/-- The contributions can be written, and a deque can hold them. -/
structure HorizonWritable (horizon : List Contribution) : Prop where
  size : horizon.length < 2147483648
  contributions : ∀ c ∈ horizon, Writable c

theorem writeHorizon_of_writable {horizon : List Contribution}
    (writable : HorizonWritable horizon) :
    writeHorizon horizon = some (horizonBytes horizon) := by
  have written := mapM_of_total fun c member =>
    writeContribution_of_writable (writable.contributions c member)
  rw [writeHorizon, written, horizonBytes, List.flatMap_def]
  rfl

theorem reads_horizon {horizon : List Contribution} (writable : HorizonWritable horizon) :
    Reads readHorizon (horizonBytes horizon) horizon := by
  apply (reads_size writable.size).bind
  exact reads_many fun c member => reads_contribution (writable.contributions c member)

def windowsBytes (w : DeviceWindows) : List UInt8 :=
  writeInt (Int32.ofNat w.horizonLengths.length) ++ (w.horizonLengths.flatMap writeLong ++
    (writeLong w.clockMs ++ (contributions w).flatMap horizonBytes))

/-- What is held can be written, and an array can hold the horizons. -/
structure WindowsWritable (w : DeviceWindows) : Prop where
  size : w.horizons.length < 2147483648
  horizons : ∀ horizon ∈ contributions w, HorizonWritable horizon

theorem serialize_of_writable {w : DeviceWindows} (writable : WindowsWritable w) :
    serialize w = some (windowsBytes w) := by
  have written := mapM_of_total fun horizon member =>
    writeHorizon_of_writable (writable.horizons horizon member)
  have flat : (contributions w).flatMap horizonBytes =
      ((contributions w).map horizonBytes).flatten := List.flatMap_def
  rw [serialize, written, windowsBytes, flat]
  rfl

theorem reads_windows {w : DeviceWindows} (writable : WindowsWritable w) :
    Reads deserialize (windowsBytes w) (copy w) := by
  have size : w.horizonLengths.length < 2147483648 := by
    rw [DeviceWindows.horizonLengths, List.length_map]
    exact writable.size
  have lengths := reads_many fun length (_ : length ∈ w.horizonLengths) => reads_long length
  have horizons := reads_many fun horizon member => reads_horizon (writable.horizons horizon member)
  have count : (contributions w).length = w.horizonLengths.length := by
    rw [contributions, DeviceWindows.horizonLengths, List.length_map, List.length_map]
  rw [count] at horizons
  apply (reads_size size).bind
  apply lengths.bind
  apply (reads_long w.clockMs).bind
  exact horizons.last rfl

end DeviceWindowsSerializer

/-! The aggregates that are built again are those that were maintained. -/

/-- The same contributions, and aggregates that track them. -/
structure Horizon.Twin (h o : Horizon) : Prop where
  lengthMs : h.lengthMs = o.lengthMs
  contributions : h.contributions = o.contributions
  left : h.Tracks
  right : o.Tracks

/-- Everything but the order in the maps is equal. -/
structure Horizon.Same (h o : Horizon) : Prop where
  lengthMs : h.lengthMs = o.lengthMs
  contributions : h.contributions = o.contributions
  bytes : h.bytes = o.bytes
  failedTargets : h.failedTargets = o.failedTargets
  remoteIps : ∀ remoteIp, h.remoteIps.lookup remoteIp = o.remoteIps.lookup remoteIp
  /-- With the references, the latest time and the latest outcome of every target. -/
  targets : ∀ target, h.targets.lookup target = o.targets.lookup target

namespace Horizon

variable {h o : Horizon}

theorem Twin.same (twin : h.Twin o) : h.Same o where
  lengthMs := twin.lengthMs
  contributions := twin.contributions
  bytes := by rw [twin.left.bytes, twin.right.bytes, twin.contributions]
  failedTargets := by rw [twin.left.failedTargets, twin.right.failedTargets, twin.contributions]
  remoteIps remoteIp := by
    rw [twin.left.remoteIps, twin.right.remoteIps, twin.contributions]
  targets target := by rw [twin.left.targets, twin.right.targets, twin.contributions]

theorem Twin.view (twin : h.Twin o) (deviceKey : String) (clockMs : Int64) :
    h.view deviceKey clockMs = o.view deviceKey clockMs := by
  rw [h.view_eq_recompute twin.left, o.view_eq_recompute twin.right, twin.lengthMs,
    twin.contributions]

theorem Twin.add (twin : h.Twin o) (c : Contribution) : (h.add c).Twin (o.add c) where
  lengthMs := twin.lengthMs
  contributions := by
    rw [add_contributions, add_contributions, twin.contributions]
  left := h.add_tracks c twin.left
  right := o.add_tracks c twin.right

theorem Twin.expire (twin : h.Twin o) (clockMs : Int64) :
    (h.expire clockMs).1.Twin (o.expire clockMs).1 where
  lengthMs := by rw [expire_length, expire_length, twin.lengthMs]
  contributions := by
    rw [expire_contributions h twin.left, expire_contributions o twin.right, twin.lengthMs,
      twin.contributions]
  left := h.expire_loop_tracks _ twin.left
  right := o.expire_loop_tracks _ twin.right

theorem expireLoop_changed (cutoff : Int64) (h : Horizon) (contributions : List Contribution) :
    (h.expireLoop cutoff contributions).2 =
      contributions.head?.any fun c => decide (c.eventTimeMs ≤ cutoff) := by
  cases contributions with
  | nil => rfl
  | cons c rest =>
      by_cases old : c.eventTimeMs ≤ cutoff
      · simp only [expireLoop, old, if_true, List.head?_cons, Option.any_some, decide_true]
      · simp only [expireLoop, old, if_false, List.head?_cons, Option.any_some, decide_false]

theorem Twin.expire_changed (twin : h.Twin o) (clockMs : Int64) :
    (h.expire clockMs).2 = (o.expire clockMs).2 := by
  rw [Horizon.expire, Horizon.expire, expireLoop_changed, expireLoop_changed, twin.lengthMs,
    twin.contributions]

theorem add_in_order {contributions : List Contribution} (front : List Contribution)
    (sorted : (front ++ contributions).Pairwise earlier) (held : h.contributions = front) :
    (Runs.run Horizon.add h contributions).contributions = front ++ contributions := by
  induction contributions generalizing h front with
  | nil => exact held.trans (List.append_nil _).symm
  | cons c rest ih =>
      have last : ∀ b ∈ front.getLast?, earlier b c := by
        intro b member
        exact (List.pairwise_append.mp sorted).2.2 b (List.mem_of_getLast? member) c
          (List.mem_cons_self ..)
      have first : (h.add c).contributions = front ++ [c] := by
        rw [add_contributions, held]
        exact StableOrder.insertLast_of_last earlier front c last
      have parts : front ++ c :: rest = (front ++ [c]) ++ rest := by
        rw [List.append_assoc, List.singleton_append]
      rw [parts] at sorted
      rw [Runs.run_cons, parts]
      exact ih (front ++ [c]) sorted first

theorem run_add_keeps (contributions : List Contribution) (tracks : h.Tracks) :
    (Runs.run Horizon.add h contributions).Tracks ∧
      (Runs.run Horizon.add h contributions).lengthMs = h.lengthMs := by
  induction contributions generalizing h with
  | nil => exact ⟨tracks, rfl⟩
  | cons c rest ih => exact ih (h.add_tracks c tracks)

theorem rebuilt_twin (tracks : h.Tracks) :
    (Runs.run Horizon.add (new h.lengthMs) h.contributions).Twin h where
  lengthMs := (run_add_keeps _ (new_tracks h.lengthMs)).2
  contributions := add_in_order [] tracks.sorted rfl
  left := (run_add_keeps _ (new_tracks h.lengthMs)).1
  right := tracks

end Horizon

namespace DeviceWindows

structure Twin (w v : DeviceWindows) : Prop where
  clockMs : w.clockMs = v.clockMs
  horizons : List.Forall₂ Horizon.Twin w.horizons v.horizons

structure Same (w v : DeviceWindows) : Prop where
  clockMs : w.clockMs = v.clockMs
  horizons : List.Forall₂ Horizon.Same w.horizons v.horizons

variable {w v : DeviceWindows}

theorem Twin.same (twin : w.Twin v) : w.Same v :=
  ⟨twin.clockMs, twin.horizons.imp fun _ _ each => each.same⟩

theorem map_of_twins {α : Type} {f : Horizon → α} {horizons others : List Horizon}
    (twins : List.Forall₂ Horizon.Twin horizons others)
    (same : ∀ h o, h.Twin o → f h = f o) : horizons.map f = others.map f := by
  induction twins with
  | nil => rfl
  | cons first _ ih => rw [List.map_cons, List.map_cons, same _ _ first, ih]

theorem twins_map {f : Horizon → Horizon} {horizons others : List Horizon}
    (twins : List.Forall₂ Horizon.Twin horizons others)
    (keeps : ∀ h o, h.Twin o → (f h).Twin (f o)) :
    List.Forall₂ Horizon.Twin (horizons.map f) (others.map f) := by
  induction twins with
  | nil => exact .nil
  | cons first _ ih => exact .cons (keeps _ _ first) ih

theorem Twin.views (twin : w.Twin v) (deviceKey : String) :
    w.views deviceKey = v.views deviceKey := by
  rw [DeviceWindows.views, DeviceWindows.views, twin.clockMs]
  exact map_of_twins twin.horizons fun h o each => each.view deviceKey v.clockMs

theorem Twin.advanceTo (twin : w.Twin v) (newClockMs : Int64) :
    (w.advanceTo newClockMs).1.Twin (v.advanceTo newClockMs).1 ∧
      (w.advanceTo newClockMs).2 = (v.advanceTo newClockMs).2 := by
  by_cases stays : newClockMs ≤ v.clockMs
  · rw [DeviceWindows.advanceTo, DeviceWindows.advanceTo, twin.clockMs, if_pos stays,
      if_pos stays]
    exact ⟨twin, rfl⟩
  · rw [DeviceWindows.advanceTo, DeviceWindows.advanceTo, twin.clockMs, if_neg stays,
      if_neg stays]
    constructor
    · exact ⟨rfl, twins_map twin.horizons fun h o each => each.expire newClockMs⟩
    · have changed := map_of_twins twin.horizons fun h o each => each.expire_changed newClockMs
      have any := congrArg (List.any · id) changed
      rw [List.any_map, List.any_map] at any
      exact any

theorem Twin.add (twin : w.Twin v) (record : FlowRecord) :
    (w.add record).Twin (v.add record) := by
  have advanced := (twin.advanceTo
    (mathMax v.clockMs (Contribution.of record).eventTimeMs)).1
  rw [DeviceWindows.add, DeviceWindows.add, twin.clockMs]
  constructor
  · exact advanced.clockMs
  · dsimp only
    rw [advanced.clockMs]
    apply twins_map advanced.horizons
    intro h o each
    rw [each.lengthMs]
    split
    · exact each.add _
    · exact each

theorem Twin.call (twin : w.Twin v) (made : WindowCall) : (w.call made).Twin (v.call made) := by
  cases made with
  | add record => exact twin.add record
  | advanceTo newClockMs => exact (twin.advanceTo newClockMs).1

theorem Twin.run (twin : w.Twin v) (later : List WindowCall) :
    (Runs.run DeviceWindows.call w later).Twin (Runs.run DeviceWindows.call v later) := by
  induction later generalizing w v with
  | nil => exact twin
  | cons made rest ih => exact ih (twin.call made)

/-- Whatever the clock and the horizons, the aggregates track the contributions, and these come
from the flows added. -/
structure Sound (w : DeviceWindows) (added : List Contribution) : Prop where
  tracks : ∀ h ∈ w.horizons, h.Tracks
  added : ∀ h ∈ w.horizons, ∀ c ∈ h.contributions, c ∈ added

section Runs

variable {added : List Contribution}

theorem Sound.advanceTo (sound : w.Sound added) (newClockMs : Int64) :
    (w.advanceTo newClockMs).1.Sound added := by
  unfold DeviceWindows.advanceTo
  split
  · exact sound
  · constructor
    · intro expired member
      rcases List.mem_map.mp member with ⟨h, inside, rfl⟩
      exact h.expire_loop_tracks _ (sound.tracks h inside)
    · intro expired member c held
      rcases List.mem_map.mp member with ⟨h, inside, rfl⟩
      rw [h.expire_contributions (sound.tracks h inside)] at held
      exact sound.added h inside c (List.mem_filter.mp held).1

theorem Sound.add (sound : w.Sound added) (record : FlowRecord) :
    (w.add record).Sound (added ++ [Contribution.of record]) := by
  have advanced := sound.advanceTo (mathMax w.clockMs (Contribution.of record).eventTimeMs)
  constructor
  · intro joined member
    rcases List.mem_map.mp member with ⟨h, inside, rfl⟩
    split
    · exact h.add_tracks _ (advanced.tracks h inside)
    · exact advanced.tracks h inside
  · intro joined member c held
    rcases List.mem_map.mp member with ⟨h, inside, rfl⟩
    have old : ∀ c ∈ h.contributions, c ∈ added ++ [Contribution.of record] :=
      fun c before => List.mem_append_left _ (advanced.added h inside c before)
    split at held
    · rw [Horizon.add_contributions,
        (StableOrder.insertLast_perm earlier _ _).mem_iff] at held
      rcases List.mem_cons.mp held with rfl | before
      · exact List.mem_append_right _ (List.mem_singleton_self _)
      · exact old c before
    · exact old c held

theorem run_sound (lengths : List Int64) (calls : List WindowCall) :
    (Runs.run DeviceWindows.call (new lengths) calls).Sound
      (calls.filterMap WindowCall.added?) := by
  induction calls using List.reverseRecOn with
  | nil =>
      constructor
      · exact (new_covers lengths).tracks
      · intro h member c held
        rcases List.mem_map.mp member with ⟨length, _, rfl⟩
        cases held
  | append_singleton calls last ih =>
      rw [Runs.run_append, List.filterMap_append]
      cases last with
      | add record => exact ih.add record
      | advanceTo newClockMs =>
          have none : [WindowCall.advanceTo newClockMs].filterMap WindowCall.added? = [] := rfl
          rw [none, List.append_nil]
          exact ih.advanceTo newClockMs

theorem rebuilt_twins {horizons : List Horizon} (tracks : ∀ h ∈ horizons, h.Tracks) :
    List.Forall₂ Horizon.Twin (List.zipWith (fun h held => Runs.run Horizon.add h held)
      ((horizons.map Horizon.lengthMs).map Horizon.new) (horizons.map Horizon.contributions))
      horizons := by
  induction horizons with
  | nil => exact .nil
  | cons h rest ih =>
      have first := tracks h (List.mem_cons_self ..)
      have later := ih fun other member => tracks other (List.mem_cons_of_mem _ member)
      exact .cons (Horizon.rebuilt_twin first) later

theorem copy_twin (sound : w.Sound added) : (DeviceWindowsSerializer.copy w).Twin w :=
  ⟨rfl, rebuilt_twins sound.tracks⟩

theorem call_length (w : DeviceWindows) (made : WindowCall) :
    (w.call made).horizons.length = w.horizons.length := by
  have advances : ∀ newClockMs, (w.advanceTo newClockMs).1.horizons.length = w.horizons.length := by
    intro newClockMs
    unfold DeviceWindows.advanceTo
    split
    · rfl
    · exact List.length_map _
  cases made with
  | add record => exact (List.length_map _).trans (advances _)
  | advanceTo newClockMs => exact advances newClockMs

theorem run_length (w : DeviceWindows) (calls : List WindowCall) :
    (Runs.run DeviceWindows.call w calls).horizons.length = w.horizons.length := by
  induction calls generalizing w with
  | nil => rfl
  | cons made rest ih => exact (ih (w.call made)).trans (call_length w made)

end Runs

/-- The strings of the flow that are written fit. -/
def WindowCall.Writable : WindowCall → Prop
  | .add record => DeviceWindowsSerializer.Writable (.of record)
  | .advanceTo _ => True

/-- After any later calls both report the same views, and the next advance returns the same. -/
def ActsAlike (w v : DeviceWindows) : Prop :=
  ∀ later : List WindowCall,
    (∀ deviceKey, (Runs.run DeviceWindows.call w later).views deviceKey =
      (Runs.run DeviceWindows.call v later).views deviceKey) ∧
    ∀ newClockMs, ((Runs.run DeviceWindows.call w later).advanceTo newClockMs).2 =
      ((Runs.run DeviceWindows.call v later).advanceTo newClockMs).2

theorem Twin.actsAlike (twin : w.Twin v) : w.ActsAlike v := by
  intro later
  have after := twin.run later
  exact ⟨after.views, fun newClockMs => (after.advanceTo newClockMs).2⟩

/-- A checkpoint of the windows, read back, is the same state, and so is a copy. The sizes are
those that arrays and deques can have. -/
theorem checkpoint_round_trip (lengths : List Int64) (calls : List WindowCall)
    (writable : ∀ made ∈ calls, made.Writable) (horizons : lengths.length < 2147483648)
    (sizes : ∀ h ∈ (Runs.run DeviceWindows.call (new lengths) calls).horizons,
      h.contributions.length < 2147483648) :
    let w := Runs.run DeviceWindows.call (new lengths) calls
    (∃ bytes restored, DeviceWindowsSerializer.serialize w = some bytes ∧
      (∀ rest, DeviceWindowsSerializer.deserialize (bytes ++ rest) = some (restored, rest)) ∧
      restored.Same w ∧ restored.ActsAlike w) ∧
    (DeviceWindowsSerializer.copy w).Same w ∧ (DeviceWindowsSerializer.copy w).ActsAlike w := by
  intro w
  have sound : w.Sound (calls.filterMap WindowCall.added?) := run_sound lengths calls
  have twin := copy_twin sound
  have size : w.horizons.length < 2147483648 := by
    have same : w.horizons.length = (lengths.map Horizon.new).length :=
      run_length (new lengths) calls
    rw [same, List.length_map]
    exact horizons
  have held : ∀ c ∈ calls.filterMap WindowCall.added?, DeviceWindowsSerializer.Writable c := by
    intro c member
    rcases List.mem_filterMap.mp member with ⟨made, inCalls, adds⟩
    have fits := writable made inCalls
    cases made with
    | add record =>
        cases adds
        exact fits
    | advanceTo newClockMs => cases adds
  have all : DeviceWindowsSerializer.WindowsWritable w := by
    refine ⟨size, ?_⟩
    intro horizon member
    rcases List.mem_map.mp member with ⟨h, inside, rfl⟩
    exact ⟨sizes h inside, fun c inHorizon => held c (sound.added h inside c inHorizon)⟩
  constructor
  · exact ⟨_, _, DeviceWindowsSerializer.serialize_of_writable all,
      DeviceWindowsSerializer.reads_windows all, twin.same, twin.actsAlike⟩
  · exact ⟨twin.same, twin.actsAlike⟩

theorem checkpoint_late_flow :
    let w := Runs.run DeviceWindows.call (new minuteAndQuarter) lateFlowCalls
    (∃ bytes restored, DeviceWindowsSerializer.serialize w = some bytes ∧
      (∀ rest, DeviceWindowsSerializer.deserialize (bytes ++ rest) = some (restored, rest)) ∧
      restored.Same w ∧ restored.ActsAlike w) ∧
    (DeviceWindowsSerializer.copy w).Same w ∧ (DeviceWindowsSerializer.copy w).ActsAlike w := by
  have writable : ∀ made ∈ lateFlowCalls, made.Writable := by
    intro made member
    simp only [lateFlowCalls, List.mem_cons, List.not_mem_nil, or_false] at member
    rcases member with rfl | rfl | rfl | rfl
    · exact ⟨by decide, by decide, by decide⟩
    · exact ⟨by decide, by decide, by decide⟩
    · exact ⟨by decide, by decide, by decide⟩
    · trivial
  exact checkpoint_round_trip minuteAndQuarter lateFlowCalls writable (by decide) (by decide)

end DeviceWindows

end PiAgents.Detection
