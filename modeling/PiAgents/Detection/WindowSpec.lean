import Mathlib.Data.Finset.Card
import PiAgents.Detection.DeviceWindows
import PiAgents.Lib.Runs
import PiAgents.Lib.StableOrder

/-! What the rolling views mean: each horizon holds the stable sort, by event time, of the flows
added so far that its window covers, and reports what a recomputation over that list gives. -/

namespace PiAgents.Detection

open StableOrder (insertLast)

def earlier (a b : Contribution) : Prop := a.eventTimeMs ≤ b.eventTimeMs

instance : DecidableRel earlier := fun a b =>
  inferInstanceAs (Decidable (a.eventTimeMs ≤ b.eventTimeMs))

instance : Std.Total earlier := ⟨fun a b => Int64.le_total a.eventTimeMs b.eventTimeMs⟩

instance : IsTrans Contribution earlier := ⟨fun _ _ _ first second => Int64.le_trans first second⟩

/-- The window `(clock - length, clock]`, over the integers. -/
def inWindow (clockMs lengthMs : Int64) (c : Contribution) : Bool :=
  clockMs.toInt - lengthMs.toInt < c.eventTimeMs.toInt ∧ c.eventTimeMs ≤ clockMs

/-- The flows a horizon covers, in event-time order with ties in arrival order. -/
def windowOf (added : List Contribution) (clockMs lengthMs : Int64) : List Contribution :=
  (added.filter (inWindow clockMs lengthMs)).insertionSort earlier

def fiber (contributions : List Contribution) (target : String) : List Contribution :=
  contributions.filter fun c => c.target == target

/-- Whether the last contribution of a target is a failed attempt. -/
def lastFailed (contributions : List Contribution) (target : String) : Bool :=
  ((fiber contributions target).getLast?.map Contribution.failed).getD false

def totalBytes (contributions : List Contribution) : Int64 :=
  contributions.foldr (fun c total => c.bytes + total) 0

/-- The view computed from scratch. -/
def recompute (deviceKey : String) (clockMs lengthMs : Int64) (contributions : List Contribution) :
    View where
  deviceKey := deviceKey
  horizonSeconds := (lengthMs / 1000).toInt32
  windowEndMs := clockMs
  flows := Int32.ofNat contributions.length
  bytes := totalBytes contributions
  distinctRemoteIps := Int32.ofNat (contributions.map Contribution.remoteIp).dedup.length
  distinctTargets := Int32.ofNat (contributions.map Contribution.target).dedup.length
  failedTargets := Int32.ofNat
    ((contributions.map Contribution.target).dedup.filter (lastFailed contributions)).length
  latestEventId := (contributions.getLast?.map Contribution.eventId).getD ""
  latestIngestTimeMs := (contributions.getLast?.map Contribution.ingestTimeMs).getD 0
  sampleEventIds :=
    ((contributions.reverse.filter Contribution.failed).take sampleSize).map Contribution.eventId

/-! What the maps of a horizon hold. -/

def refsOf (contributions : List Contribution) (remoteIp : String) : Option Nat :=
  let refs := contributions.countP fun c => c.remoteIp == remoteIp
  if refs = 0 then none else some refs

def targetOf (contributions : List Contribution) (target : String) : Option Target :=
  (fiber contributions target).getLast?.map fun last =>
    ⟨(fiber contributions target).length, last.eventTimeMs, last.failed⟩

def failedSet (contributions : List Contribution) : Finset String :=
  (contributions.map Contribution.target).toFinset.filter fun target =>
    lastFailed contributions target = true

/-- The aggregates are those of the contributions held. -/
structure Horizon.Tracks (h : Horizon) : Prop where
  sorted : h.contributions.Pairwise earlier
  bytes : h.bytes = totalBytes h.contributions
  remoteIps : ∀ remoteIp, h.remoteIps.lookup remoteIp = refsOf h.contributions remoteIp
  targets : ∀ target, h.targets.lookup target = targetOf h.contributions target
  failedTargets : h.failedTargets = Int32.ofNat (failedSet h.contributions).card

theorem insertFromTail_eq (contributions : List Contribution) (c : Contribution) :
    Horizon.insertFromTail contributions c = insertLast earlier contributions c := by
  have newer : (fun b : Contribution => decide (c.eventTimeMs < b.eventTimeMs)) =
      fun b => !decide (earlier b c) := by
    funext b
    rw [← decide_not]
    exact decide_eq_decide.mpr Int64.not_le.symm
  unfold Horizon.insertFromTail
  split
  · next empty =>
      exact (StableOrder.insertLast_of_last earlier contributions c (by simp [empty])).symm
  · next last isLast =>
      split
      · next order =>
          have before : ∀ b ∈ contributions.getLast?, earlier b c := by
            intro b member
            rw [isLast, Option.mem_some_iff] at member
            exact member ▸ order
          exact (StableOrder.insertLast_of_last earlier contributions c before).symm
      · rw [newer]
        rfl

theorem mem_failedSet {contributions : List Contribution} {target : String} :
    target ∈ failedSet contributions ↔ lastFailed contributions target = true := by
  rw [failedSet, Finset.mem_filter, and_iff_right_iff_imp]
  intro failed
  unfold lastFailed at failed
  cases last : (fiber contributions target).getLast? with
  | none =>
      rw [last] at failed
      cases failed
  | some c =>
      obtain ⟨held, ofTarget⟩ := List.mem_filter.mp (List.mem_of_getLast? last)
      rw [List.mem_toFinset]
      exact List.mem_map.mpr ⟨c, held, eq_of_beq ofTarget⟩

theorem totalBytes_perm {first second : List Contribution} (perm : first.Perm second) :
    totalBytes first = totalBytes second := by
  induction perm with
  | nil => rfl
  | cons c _ ih => exact congrArg (c.bytes + ·) ih
  | swap a b rest =>
      calc b.bytes + (a.bytes + totalBytes rest)
        _ = b.bytes + a.bytes + totalBytes rest := (Int64.add_assoc _ _ _).symm
        _ = a.bytes + b.bytes + totalBytes rest := by rw [Int64.add_comm b.bytes]
        _ = a.bytes + (b.bytes + totalBytes rest) := Int64.add_assoc _ _ _
  | trans _ _ first second => exact first.trans second

private theorem refsOf_eq_of_count {first second : List Contribution} {remoteIp : String}
    (count : first.countP (fun c => c.remoteIp == remoteIp) =
      second.countP fun c => c.remoteIp == remoteIp) :
    refsOf first remoteIp = refsOf second remoteIp := by
  rw [refsOf, refsOf, count]

section

variable (contributions : List Contribution) (c : Contribution)

private theorem fiber_cons_self :
    fiber (c :: contributions) c.target = c :: fiber contributions c.target :=
  List.filter_cons_of_pos (beq_self_eq_true c.target)

private theorem fiber_cons_other (target : String) (other : c.target ≠ target) :
    fiber (c :: contributions) target = fiber contributions target :=
  List.filter_cons_of_neg (by simpa using other)

private theorem fiber_insert_self (sorted : contributions.Pairwise earlier) :
    fiber (insertLast earlier contributions c) c.target =
      insertLast earlier (fiber contributions c.target) c :=
  StableOrder.insertLast_filter earlier sorted c _ (beq_self_eq_true c.target)

private theorem fiber_insert_other (target : String) (other : c.target ≠ target) :
    fiber (insertLast earlier contributions c) target = fiber contributions target :=
  StableOrder.insertLast_filter_not earlier contributions c _ (by simpa using other)

theorem lastFailed_of_fiber {first second : List Contribution} {target : String}
    (same : fiber first target = fiber second target) :
    lastFailed first target = lastFailed second target := by
  rw [lastFailed, lastFailed, same]

theorem targetOf_of_fiber {first second : List Contribution} {target : String}
    (same : fiber first target = fiber second target) :
    targetOf first target = targetOf second target := by
  rw [targetOf, targetOf, same]

theorem failedSet_latest (first second : List Contribution) (target : String) (failed : Bool)
    (latest : lastFailed second target = failed)
    (others : ∀ other, target ≠ other → lastFailed second other = lastFailed first other) :
    failedSet second =
      if failed then insert target (failedSet first) else (failedSet first).erase target := by
  ext other
  by_cases same : target = other
  · subst same
    cases failed <;> simp [mem_failedSet, latest]
  · cases failed <;>
      simp [mem_failedSet, others other same, Ne.symm same]

private theorem ofNat_pred_add_one (n : Nat) (positive : 0 < n) :
    Int32.ofNat n = Int32.ofNat (n - 1) + 1 := by
  obtain ⟨m, rfl⟩ := Nat.exists_eq_succ_of_ne_zero positive.ne'
  exact Int32.ofNat_add m 1

theorem failed_card_latest (set : Finset String) (target : String) (failed : Bool) :
    Int32.ofNat (if failed then insert target set else set.erase target).card =
      Int32.ofNat set.card + (Horizon.flag failed - Horizon.flag (decide (target ∈ set))) := by
  by_cases member : target ∈ set
  · have positive : 0 < set.card := Finset.card_pos.mpr ⟨target, member⟩
    cases failed with
    | true =>
        simp only [if_true, Finset.insert_eq_of_mem member, member, decide_true, Int32.sub_self,
          Int32.add_zero]
    | false =>
        simp only [Bool.false_eq_true, if_false, Finset.card_erase_of_mem member, member,
          decide_true]
        rw [ofNat_pred_add_one set.card positive]
        simp only [Horizon.flag, Bool.false_eq_true, if_false, if_true]
        grind
  · cases failed with
    | true =>
        simp only [if_true, Finset.card_insert_of_notMem member, member, decide_false,
          Int32.ofNat_add]
        rfl
    | false =>
        simp only [Bool.false_eq_true, if_false, Finset.erase_eq_of_notMem member, member,
          decide_false, Int32.sub_self, Int32.add_zero]

end

/-- The target record that `add` stores. -/
def Target.hit (known : Target) (c : Contribution) : Target :=
  if known.latestTimeMs ≤ c.eventTimeMs then ⟨known.refs + 1, c.eventTimeMs, c.failed⟩
  else { known with refs := known.refs + 1 }

theorem targetOf_insert (contributions : List Contribution) (c : Contribution)
    (sorted : contributions.Pairwise earlier) :
    targetOf (insertLast earlier contributions c) c.target =
      some (((targetOf contributions c.target).getD .new).hit c) := by
  have length : (insertLast earlier (fiber contributions c.target) c).length =
      (fiber contributions c.target).length + 1 :=
    (StableOrder.insertLast_perm earlier _ c).length_eq
  rw [targetOf, fiber_insert_self contributions c sorted, length, targetOf]
  cases last : (fiber contributions c.target).getLast? with
  | none =>
      rw [List.getLast?_eq_none_iff.mp last]
      simp [insertLast, Target.hit, Target.new]
  | some b =>
      simp only [Option.map_some, Option.getD_some, Target.hit]
      split
      · next order =>
          have before : ∀ d ∈ (fiber contributions c.target).getLast?, earlier d c := by
            intro d member
            rw [last, Option.mem_some_iff] at member
            exact member ▸ order
          rw [StableOrder.insertLast_of_last earlier _ c before, List.getLast?_concat]
          rfl
      · next order =>
          have kept := StableOrder.insertLast_getLast earlier (fiber contributions c.target) c b
            last order
          rw [Option.mem_def.mp kept]
          rfl

theorem lastFailed_eq_targetOf (contributions : List Contribution) (target : String) :
    lastFailed contributions target =
      ((targetOf contributions target).map Target.latestFailed).getD false := by
  rw [lastFailed, targetOf, Option.map_map]
  rfl

theorem refs_pos_of_targetOf {contributions : List Contribution} {target : String} {t : Target}
    (held : targetOf contributions target = some t) : 0 < t.refs := by
  obtain ⟨last, isLast, rfl⟩ := Option.map_eq_some_iff.mp held
  exact List.length_pos_of_mem (List.mem_of_getLast? isLast)

theorem was_failed_eq (contributions : List Contribution) (target : String) :
    (1 < ((targetOf contributions target).getD .new).refs + 1 &&
        ((targetOf contributions target).getD .new).latestFailed) =
      decide (target ∈ failedSet contributions) := by
  have member : target ∈ failedSet contributions ↔ lastFailed contributions target = true :=
    mem_failedSet
  rw [lastFailed_eq_targetOf] at member
  cases held : targetOf contributions target with
  | none =>
      rw [held] at member
      simp [member, Target.new]
  | some t =>
      rw [held] at member
      have positive := refs_pos_of_targetOf held
      simp [member, positive]

namespace Horizon

theorem new_tracks (lengthMs : Int64) : (new lengthMs).Tracks where
  sorted := List.Pairwise.nil
  bytes := rfl
  remoteIps remoteIp := AList.lookup_empty remoteIp
  targets target := AList.lookup_empty target
  failedTargets := rfl

theorem add_contributions (h : Horizon) (c : Contribution) :
    (h.add c).contributions = insertLast earlier h.contributions c :=
  insertFromTail_eq h.contributions c

theorem add_remote_ips (h : Horizon) (c : Contribution) (tracks : h.Tracks) (remoteIp : String) :
    (h.add c).remoteIps.lookup remoteIp = refsOf (h.add c).contributions remoteIp := by
  have count := ((StableOrder.insertLast_perm earlier h.contributions c).countP_eq
    fun b => b.remoteIp == remoteIp)
  rw [add_contributions, refsOf_eq_of_count count]
  by_cases same : remoteIp = c.remoteIp
  · subst same
    have stored : (h.add c).remoteIps.lookup c.remoteIp =
        some ((h.remoteIps.lookup c.remoteIp).getD 0 + 1) := AList.lookup_insert _
    rw [stored, tracks.remoteIps, refsOf, refsOf]
    simp only [List.countP_cons, beq_self_eq_true, if_true, Nat.add_eq_zero_iff, one_ne_zero,
      and_false, if_false]
    split
    · next none =>
        rw [none]
        rfl
    · rfl
  · have unchanged : (h.add c).remoteIps.lookup remoteIp = h.remoteIps.lookup remoteIp :=
      AList.lookup_insert_ne same
    rw [unchanged, tracks.remoteIps]
    apply refsOf_eq_of_count
    rw [List.countP_cons_of_neg]
    simpa using Ne.symm same

theorem add_targets (h : Horizon) (c : Contribution) (tracks : h.Tracks) (target : String) :
    (h.add c).targets.lookup target = targetOf (h.add c).contributions target := by
  rw [add_contributions]
  by_cases same : target = c.target
  · subst same
    rw [targetOf_insert h.contributions c tracks.sorted, ← tracks.targets]
    exact AList.lookup_insert _
  · have unchanged : (h.add c).targets.lookup target = h.targets.lookup target :=
      AList.lookup_insert_ne same
    rw [unchanged, tracks.targets]
    exact (targetOf_of_fiber (fiber_insert_other h.contributions c target (Ne.symm same))).symm

theorem add_failed_targets (h : Horizon) (c : Contribution) (tracks : h.Tracks) :
    (h.add c).failedTargets = Int32.ofNat (failedSet (h.add c).contributions).card := by
  have others : ∀ other, c.target ≠ other →
      lastFailed (insertLast earlier h.contributions c) other = lastFailed h.contributions other :=
    fun other differs => lastFailed_of_fiber (fiber_insert_other h.contributions c other differs)
  have stored := targetOf_insert h.contributions c tracks.sorted
  have latest := lastFailed_eq_targetOf (insertLast earlier h.contributions c) c.target
  rw [stored, Option.map_some, Option.getD_some] at latest
  have wasFailed := was_failed_eq h.contributions c.target
  rw [add_contributions]
  by_cases order : ((targetOf h.contributions c.target).getD .new).latestTimeMs ≤ c.eventTimeMs
  · rw [Target.hit, if_pos order] at latest
    rw [failedSet_latest h.contributions _ c.target c.failed latest others, failed_card_latest,
      ← wasFailed, ← tracks.failedTargets, ← tracks.targets]
    rw [← tracks.targets] at order
    simp only [add, order, if_true]
  · rw [Target.hit, if_neg order] at latest
    have unchanged : failedSet (insertLast earlier h.contributions c) =
        failedSet h.contributions := by
      ext other
      rw [mem_failedSet, mem_failedSet]
      by_cases same : c.target = other
      · subst same
        rw [latest, lastFailed_eq_targetOf]
        cases held : targetOf h.contributions c.target with
        | none =>
            rw [held] at order
            exact absurd (Int64.minValue_le c.eventTimeMs) order
        | some t => rfl
      · rw [others other same]
    rw [unchanged, ← tracks.failedTargets]
    rw [← tracks.targets] at order
    simp only [add, order, if_false]

theorem add_tracks (h : Horizon) (c : Contribution) (tracks : h.Tracks) : (h.add c).Tracks where
  sorted := by
    rw [add_contributions]
    exact StableOrder.insertLast_sorted earlier tracks.sorted c
  bytes := by
    rw [add_contributions, totalBytes_perm (StableOrder.insertLast_perm earlier _ c)]
    calc h.bytes + c.bytes
      _ = c.bytes + h.bytes := Int64.add_comm _ _
      _ = c.bytes + totalBytes h.contributions := by rw [tracks.bytes]
  remoteIps := h.add_remote_ips c tracks
  targets := h.add_targets c tracks
  failedTargets := h.add_failed_targets c tracks

theorem poll_first_contributions (h : Horizon) (c : Contribution) (rest : List Contribution) :
    (h.pollFirst c rest).contributions = rest := by
  unfold pollFirst
  split
  · rfl
  · split <;> rfl

private theorem poll_first_length (h : Horizon) (c : Contribution) (rest : List Contribution) :
    (h.pollFirst c rest).lengthMs = h.lengthMs := by
  unfold pollFirst
  split
  · rfl
  · split <;> rfl

private theorem poll_first_bytes (h : Horizon) (c : Contribution) (rest : List Contribution) :
    (h.pollFirst c rest).bytes = h.bytes - c.bytes := by
  unfold pollFirst
  split
  · rfl
  · split <;> rfl

private theorem poll_first_remote_ips (h : Horizon) (c : Contribution) (rest : List Contribution) :
    (h.pollFirst c rest).remoteIps = releaseIp h.remoteIps c.remoteIp := by
  unfold pollFirst
  split
  · rfl
  · split <;> rfl

theorem release_ip_tracks (remoteIps : AList (fun _ : String => Nat)) (c : Contribution)
    (rest : List Contribution)
    (tracks : ∀ remoteIp, remoteIps.lookup remoteIp = refsOf (c :: rest) remoteIp)
    (remoteIp : String) :
    (releaseIp remoteIps c.remoteIp).lookup remoteIp = refsOf rest remoteIp := by
  have held : remoteIps.lookup c.remoteIp =
      some ((rest.countP fun b => b.remoteIp == c.remoteIp) + 1) := by
    have count : ((c :: rest).countP fun b => b.remoteIp == c.remoteIp) =
        (rest.countP fun b => b.remoteIp == c.remoteIp) + 1 :=
      List.countP_cons_of_pos (beq_self_eq_true c.remoteIp)
    rw [tracks, refsOf, count]
    rfl
  simp only [releaseIp, held, Nat.add_eq_right, Nat.add_sub_cancel]
  by_cases same : remoteIp = c.remoteIp
  · subst same
    split
    · next none =>
        rw [refsOf, none]
        exact AList.lookup_erase _ _
    · next some =>
        rw [refsOf]
        simp only [some, if_false]
        exact AList.lookup_insert _
  · have unchanged : refsOf rest remoteIp = refsOf (c :: rest) remoteIp := by
      apply refsOf_eq_of_count
      rw [List.countP_cons_of_neg]
      simpa using Ne.symm same
    rw [unchanged, ← tracks]
    split
    · exact AList.lookup_erase_ne same
    · exact AList.lookup_insert_ne same

theorem targetOf_cons_self (c : Contribution) (rest : List Contribution) :
    targetOf (c :: rest) c.target =
      match targetOf rest c.target with
      | none => some ⟨1, c.eventTimeMs, c.failed⟩
      | some t => some { t with refs := t.refs + 1 } := by
  rw [targetOf, fiber_cons_self, targetOf]
  cases last : (fiber rest c.target).getLast? with
  | none =>
      rw [List.getLast?_eq_none_iff.mp last]
      rfl
  | some b =>
      have isLast : (c :: fiber rest c.target).getLast? = some b := by
        rw [List.getLast?_cons, last]
        rfl
      rw [isLast]
      rfl

theorem targetOf_cons_other (c : Contribution) (rest : List Contribution) (target : String)
    (other : c.target ≠ target) : targetOf (c :: rest) target = targetOf rest target :=
  targetOf_of_fiber (fiber_cons_other rest c target other)

theorem poll_first_targets (h : Horizon) (c : Contribution) (rest : List Contribution)
    (tracks : ∀ target, h.targets.lookup target = targetOf (c :: rest) target) (target : String) :
    (h.pollFirst c rest).targets.lookup target = targetOf rest target := by
  have held := (tracks c.target).trans (targetOf_cons_self c rest)
  by_cases same : target = c.target
  · subst same
    cases left : targetOf rest c.target with
    | none =>
        rw [left] at held
        simp only [pollFirst, held, if_true]
        exact AList.lookup_erase _ _
    | some t =>
        rw [left] at held
        have positive := refs_pos_of_targetOf left
        have several : ¬ t.refs + 1 = 1 := by omega
        simp only [pollFirst, held, several, if_false, Nat.add_sub_cancel]
        exact AList.lookup_insert _
  · rw [← targetOf_cons_other c rest target (Ne.symm same), ← tracks]
    unfold pollFirst
    split
    · rfl
    · split
      · exact AList.lookup_erase_ne same
      · exact AList.lookup_insert_ne same

theorem poll_first_failed_targets (h : Horizon) (c : Contribution) (rest : List Contribution)
    (tracks : ∀ target, h.targets.lookup target = targetOf (c :: rest) target)
    (counted : h.failedTargets = Int32.ofNat (failedSet (c :: rest)).card) :
    (h.pollFirst c rest).failedTargets = Int32.ofNat (failedSet rest).card := by
  have held := (tracks c.target).trans (targetOf_cons_self c rest)
  have others : ∀ other, c.target ≠ other →
      lastFailed (c :: rest) other = lastFailed rest other :=
    fun other differs => lastFailed_of_fiber (fiber_cons_other rest c other differs)
  have first := lastFailed_eq_targetOf (c :: rest) c.target
  rw [targetOf_cons_self] at first
  cases left : targetOf rest c.target with
  | none =>
      -- The polled contribution was the only one of its target.
      rw [left] at held first
      simp only [Option.map_some, Option.getD_some] at first
      have absent : c.target ∉ failedSet rest := by
        rw [mem_failedSet, lastFailed_eq_targetOf, left]
        exact Bool.false_ne_true
      have before := failedSet_latest rest (c :: rest) c.target c.failed first others
      simp only [pollFirst, held, if_true]
      rw [counted, before]
      cases c.failed with
      | true =>
          simp only [if_true, Finset.card_insert_of_notMem absent, Int32.ofNat_add]
          exact Int32.add_sub_cancel _ _
      | false => simp only [Bool.false_eq_true, if_false, Finset.erase_eq_of_notMem absent]
  | some t =>
      rw [left] at held first
      have positive := refs_pos_of_targetOf left
      have several : ¬ t.refs + 1 = 1 := by omega
      have unchanged : failedSet (c :: rest) = failedSet rest := by
        ext other
        rw [mem_failedSet, mem_failedSet]
        by_cases same : c.target = other
        · subst same
          rw [first, lastFailed_eq_targetOf, left]
          rfl
        · rw [others other same]
      simp only [pollFirst, held, several, if_false]
      rw [counted, unchanged]

theorem poll_first_tracks (h : Horizon) (c : Contribution) (rest : List Contribution)
    (first : h.contributions = c :: rest) (tracks : h.Tracks) : (h.pollFirst c rest).Tracks := by
  obtain ⟨sorted, bytes, remoteIps, targets, failedTargets⟩ := tracks
  rw [first] at sorted bytes remoteIps targets failedTargets
  constructor
  · rw [poll_first_contributions]
    exact (List.pairwise_cons.mp sorted).2
  · rw [poll_first_contributions, poll_first_bytes, bytes]
    calc c.bytes + totalBytes rest - c.bytes
      _ = totalBytes rest + c.bytes - c.bytes := by rw [Int64.add_comm]
      _ = totalBytes rest := Int64.add_sub_cancel _ _
  · rw [poll_first_contributions, poll_first_remote_ips]
    exact release_ip_tracks h.remoteIps c rest remoteIps
  · rw [poll_first_contributions]
    exact h.poll_first_targets c rest targets
  · rw [poll_first_contributions]
    exact h.poll_first_failed_targets c rest targets failedTargets

/-- What the loop of `expire` leaves: the newer contributions. -/
theorem expire_loop_contributions (cutoff : Int64) (h : Horizon) :
    (h.expireLoop cutoff h.contributions).1.contributions =
        h.contributions.dropWhile (fun c => c.eventTimeMs ≤ cutoff) ∧
      (h.expireLoop cutoff h.contributions).1.lengthMs = h.lengthMs := by
  generalize held : h.contributions = contributions
  induction contributions generalizing h with
  | nil => exact ⟨held, rfl⟩
  | cons c rest ih =>
      by_cases old : c.eventTimeMs ≤ cutoff
      · have polled := ih (h.pollFirst c rest) (h.poll_first_contributions c rest)
        rw [poll_first_length] at polled
        simp only [expireLoop, old, if_true, List.dropWhile_cons, decide_true]
        exact polled
      · have kept : h.expireLoop cutoff (c :: rest) = (h, false) := by
          simp only [expireLoop, old, if_false]
        rw [kept, List.dropWhile_cons_of_neg (by simpa using old)]
        exact ⟨held, rfl⟩

theorem expire_loop_tracks (cutoff : Int64) (h : Horizon) (tracks : h.Tracks) :
    (h.expireLoop cutoff h.contributions).1.Tracks := by
  generalize held : h.contributions = contributions
  induction contributions generalizing h with
  | nil => exact tracks
  | cons c rest ih =>
      by_cases old : c.eventTimeMs ≤ cutoff
      · simp only [expireLoop, old, if_true]
        exact ih (h.pollFirst c rest) (h.poll_first_tracks c rest held tracks)
          (h.poll_first_contributions c rest)
      · have kept : h.expireLoop cutoff (c :: rest) = (h, false) := by
          simp only [expireLoop, old, if_false]
        rw [kept]
        exact tracks

theorem expire_length (h : Horizon) (clockMs : Int64) :
    (h.expire clockMs).1.lengthMs = h.lengthMs := (h.expire_loop_contributions _).2

theorem expire_contributions (h : Horizon) (tracks : h.Tracks) (clockMs : Int64) :
    (h.expire clockMs).1.contributions =
      h.contributions.filter fun c => !decide (c.eventTimeMs ≤ clockMs - h.lengthMs) := by
  rw [expire, (h.expire_loop_contributions _).1]
  apply (StableOrder.span_sorted tracks.sorted _ _).2
  intro a b order old
  rw [decide_eq_true_eq] at old ⊢
  exact Int64.le_trans order old

end Horizon

namespace Horizon

theorem sample_loop_eq (contributions : List Contribution) (sample : List String)
    (room : sample.length ≤ sampleSize) :
    sampleLoop contributions sample =
      sample ++ ((contributions.filter Contribution.failed).take
        (sampleSize - sample.length)).map Contribution.eventId := by
  induction contributions generalizing sample with
  | nil => simp [sampleLoop]
  | cons c older ih =>
      unfold sampleLoop
      split
      · next space =>
          by_cases failed : c.failed = true
          · have fits : (sample ++ [c.eventId]).length ≤ sampleSize := by
              rw [List.length_append, List.length_singleton]
              exact space
            have shrunk : sampleSize - sample.length =
                sampleSize - (sample ++ [c.eventId]).length + 1 := by
              rw [List.length_append, List.length_singleton]
              omega
            rw [if_pos failed, ih _ fits, List.filter_cons_of_pos failed, shrunk,
              List.take_succ_cons, List.map_cons, List.append_assoc, List.singleton_append]
          · rw [if_neg failed, ih _ room, List.filter_cons_of_neg failed]
      · next full =>
          have none : sampleSize - sample.length = 0 := by omega
          rw [none, List.take_zero, List.map_nil, List.append_nil]

end Horizon

private theorem keys_length_eq {Value : Type} (map : AList (fun _ : String => Value))
    (keys : List String)
    (held : ∀ key, (map.lookup key).isSome ↔ key ∈ keys) :
    map.keys.length = keys.dedup.length := by
  apply List.Perm.length_eq
  apply (List.perm_ext_iff_of_nodup map.keys_nodup keys.nodup_dedup).mpr
  intro key
  rw [← AList.mem_keys, ← AList.lookup_isSome, held, List.mem_dedup]

theorem refsOf_isSome (contributions : List Contribution) (remoteIp : String) :
    (refsOf contributions remoteIp).isSome ↔
      remoteIp ∈ contributions.map Contribution.remoteIp := by
  have positive : 0 < contributions.countP (fun c => c.remoteIp == remoteIp) ↔
      remoteIp ∈ contributions.map Contribution.remoteIp := by
    simp only [List.countP_pos_iff, beq_iff_eq, List.mem_map]
  rw [← positive, refsOf]
  split
  · next none => simp [none]
  · next some => simp [Nat.pos_of_ne_zero some]

theorem targetOf_isSome (contributions : List Contribution) (target : String) :
    (targetOf contributions target).isSome ↔ target ∈ contributions.map Contribution.target := by
  have nonempty : fiber contributions target ≠ [] ↔
      target ∈ contributions.map Contribution.target := by
    simp only [fiber, ne_eq, List.filter_eq_nil_iff, beq_iff_eq, List.mem_map, not_forall,
      not_not, exists_prop]
  rw [← nonempty, targetOf, Option.isSome_map, List.getLast?_isSome]

theorem failedSet_card (contributions : List Contribution) :
    (failedSet contributions).card =
      ((contributions.map Contribution.target).dedup.filter (lastFailed contributions)).length := by
  have listed : failedSet contributions =
      ((contributions.map Contribution.target).dedup.filter (lastFailed contributions)).toFinset := by
    ext target
    simp only [failedSet, Finset.mem_filter, List.mem_toFinset, List.mem_filter, List.mem_dedup]
  rw [listed, List.toFinset_card_of_nodup ((List.nodup_dedup _).filter _)]

/-- A horizon that tracks its contributions reports what they give from scratch. -/
theorem Horizon.view_eq_recompute (h : Horizon) (tracks : h.Tracks) (deviceKey : String)
    (clockMs : Int64) :
    h.view deviceKey clockMs = recompute deviceKey clockMs h.lengthMs h.contributions := by
  have remoteIps := keys_length_eq h.remoteIps (h.contributions.map Contribution.remoteIp)
    fun remoteIp => by rw [tracks.remoteIps, refsOf_isSome]
  have targets := keys_length_eq h.targets (h.contributions.map Contribution.target)
    fun target => by rw [tracks.targets, targetOf_isSome]
  have sample := Horizon.sample_loop_eq h.contributions.reverse [] (Nat.zero_le _)
  rw [List.nil_append, List.length_nil, Nat.sub_zero] at sample
  simp only [Horizon.view, recompute, remoteIps, targets, sample, tracks.bytes,
    tracks.failedTargets, failedSet_card]

/-! The device clock and all horizons together. -/

namespace DeviceWindows

/-- The windows after these contributions were added, in this order. -/
structure Covers (w : DeviceWindows) (lengths : List Int64) (added : List Contribution) :
    Prop where
  lengths : w.horizons.map Horizon.lengthMs = lengths
  clock : ∀ c ∈ added, c.eventTimeMs ≤ w.clockMs
  held : ∀ h ∈ w.horizons, h.contributions = windowOf added w.clockMs h.lengthMs
  tracks : ∀ h ∈ w.horizons, h.Tracks

theorem new_covers (lengths : List Int64) : (new lengths).Covers lengths [] where
  lengths := by
    rw [new, List.map_map]
    exact List.map_id lengths
  clock := by simp
  held := by
    intro h member
    obtain ⟨length, -, rfl⟩ := List.mem_map.mp member
    rfl
  tracks := by
    intro h member
    obtain ⟨length, -, rfl⟩ := List.mem_map.mp member
    exact Horizon.new_tracks length

/-- A window that ends there starts in the range of the times. -/
def Room (timeMs lengthMs : Int64) : Prop :=
  Int64.minValue.toInt + lengthMs.toInt ≤ timeMs.toInt

instance (timeMs lengthMs : Int64) : Decidable (Room timeMs lengthMs) :=
  inferInstanceAs (Decidable (Int64.minValue.toInt + lengthMs.toInt ≤ timeMs.toInt))

theorem room_of_positive {timeMs : Int64} (positive : 0 < timeMs) (lengthMs : Int64) :
    Room timeMs lengthMs := by
  have bound := lengthMs.toInt_lt
  rw [Int64.lt_iff_toInt_lt, Int64.toInt_zero] at positive
  have least : Int64.minValue.toInt = -9223372036854775808 := by decide
  rw [Room, least]
  omega

theorem Room.mono {timeMs laterMs lengthMs : Int64} (room : Room timeMs lengthMs)
    (order : timeMs ≤ laterMs) : Room laterMs lengthMs := by
  rw [Int64.le_iff_toInt_le] at order
  exact Int.le_trans room order

theorem Room.toInt_cutoff {clockMs lengthMs : Int64} (room : Room clockMs lengthMs)
    (positiveLength : 0 < lengthMs) :
    (clockMs - lengthMs).toInt = clockMs.toInt - lengthMs.toInt := by
  have clockBound := clockMs.toInt_lt
  have least : Int64.minValue.toInt = -9223372036854775808 := by decide
  rw [Int64.lt_iff_toInt_lt, Int64.toInt_zero] at positiveLength
  rw [Room, least] at room
  exact Exact.sub clockMs lengthMs (by omega) (by omega)

theorem toInt_cutoff (clockMs lengthMs : Int64) (positiveClock : 0 < clockMs)
    (positiveLength : 0 < lengthMs) :
    (clockMs - lengthMs).toInt = clockMs.toInt - lengthMs.toInt :=
  (room_of_positive positiveClock lengthMs).toInt_cutoff positiveLength

theorem window_advances (added : List Contribution) (oldClock newClock lengthMs : Int64)
    (forward : oldClock < newClock) (room : Room newClock lengthMs) (positiveLength : 0 < lengthMs)
    (before : ∀ c ∈ added, c.eventTimeMs ≤ oldClock) :
    (windowOf added oldClock lengthMs).filter
        (fun c => !decide (c.eventTimeMs ≤ newClock - lengthMs)) =
      windowOf added newClock lengthMs := by
  rw [windowOf, StableOrder.filter_insertionSort, List.filter_filter, windowOf]
  congr 1
  apply List.filter_congr
  intro c member
  have cutoff := room.toInt_cutoff positiveLength
  have past := before c member
  have now : c.eventTimeMs ≤ newClock := Int64.le_trans past (Int64.le_of_lt forward)
  rw [Int64.lt_iff_toInt_lt] at forward
  simp only [inWindow, past, now, and_true, Int64.le_iff_toInt_le, cutoff]
  rw [← decide_not, ← Bool.decide_and, decide_eq_decide]
  omega

theorem advance_lengths (w : DeviceWindows) (clockMs : Int64) :
    (w.advanceTo clockMs).1.horizons.map Horizon.lengthMs = w.horizons.map Horizon.lengthMs := by
  unfold advanceTo
  split
  · rfl
  · rw [List.map_map]
    apply List.map_congr_left
    intro h member
    exact h.expire_length clockMs

section

variable (w : DeviceWindows) (lengths : List Int64) (added : List Contribution)
  (positiveLengths : ∀ length ∈ lengths, 0 < length)
  (roomy : ∀ c ∈ added, ∀ length ∈ lengths, Room c.eventTimeMs length)

include positiveLengths roomy in
theorem advance_covers (newClockMs : Int64) (covers : w.Covers lengths added) :
    (w.advanceTo newClockMs).1.Covers lengths added := by
  unfold advanceTo
  split
  · exact covers
  · next forward =>
      rw [Int64.not_le] at forward
      constructor
      · rw [← covers.lengths, List.map_map]
        apply List.map_congr_left
        intro h member
        exact h.expire_length newClockMs
      · intro c member
        exact Int64.le_trans (covers.clock c member) (Int64.le_of_lt forward)
      · intro expired member
        obtain ⟨h, inside, rfl⟩ := List.mem_map.mp member
        have isLength : h.lengthMs ∈ lengths :=
          covers.lengths ▸ List.mem_map.mpr ⟨h, inside, rfl⟩
        rw [h.expire_contributions (covers.tracks h inside), h.expire_length, covers.held h inside]
        cases added with
        | nil => rfl
        | cons first rest =>
            have room : Room newClockMs h.lengthMs :=
              (roomy first List.mem_cons_self h.lengthMs isLength).mono
                (Int64.le_trans (covers.clock first List.mem_cons_self) (Int64.le_of_lt forward))
            exact window_advances _ w.clockMs newClockMs h.lengthMs forward room
              (positiveLengths _ isLength) covers.clock
      · intro expired member
        obtain ⟨h, inside, rfl⟩ := List.mem_map.mp member
        exact h.expire_loop_tracks _ (covers.tracks h inside)

include positiveLengths roomy in
theorem add_covers (record : FlowRecord)
    (fits : ∀ length ∈ lengths, Room record.eventTimeMs length)
    (covers : w.Covers lengths added) :
    (w.add record).Covers lengths (added ++ [Contribution.of record]) := by
  set c := Contribution.of record with contribution
  set advanced := (w.advanceTo (mathMax w.clockMs c.eventTimeMs)).1 with advancedEq
  have base : advanced.Covers lengths added :=
    advance_covers w lengths added positiveLengths roomy _ covers
  have reached : c.eventTimeMs ≤ advanced.clockMs := by
    rw [advancedEq, advanceTo, mathMax]
    by_cases order : w.clockMs ≤ c.eventTimeMs
    · rw [if_pos order]
      split
      · next stays => exact stays
      · exact Int64.le_refl _
    · rw [if_neg order, if_pos (Int64.le_refl _)]
      exact Int64.le_of_lt (Int64.not_le.mp order)
  have added_eq : w.add record = { advanced with horizons := advanced.horizons.map fun h =>
      if advanced.clockMs - h.lengthMs < c.eventTimeMs then h.add c else h } := rfl
  rw [added_eq]
  constructor
  · rw [← base.lengths, List.map_map]
    apply List.map_congr_left
    intro h member
    simp only [Function.comp_apply]
    split
    · rfl
    · rfl
  · intro b member
    rcases List.mem_append.mp member with old | new
    · exact base.clock b old
    · rw [List.mem_singleton.mp new]
      exact reached
  · intro joined member
    obtain ⟨h, inside, rfl⟩ := List.mem_map.mp member
    have isLength : h.lengthMs ∈ lengths := base.lengths ▸ List.mem_map.mpr ⟨h, inside, rfl⟩
    have room : Room advanced.clockMs h.lengthMs := (fits h.lengthMs isLength).mono reached
    have covered : inWindow advanced.clockMs h.lengthMs c = true ↔
        advanced.clockMs - h.lengthMs < c.eventTimeMs := by
      rw [inWindow, decide_eq_true_eq, Int64.lt_iff_toInt_lt,
        room.toInt_cutoff (positiveLengths _ isLength)]
      exact and_iff_left reached
    have held := base.held h inside
    by_cases joins : advanced.clockMs - h.lengthMs < c.eventTimeMs
    · rw [if_pos joins, Horizon.add_contributions, held]
      calc insertLast earlier (windowOf added advanced.clockMs h.lengthMs) c
        _ = (added.filter (inWindow advanced.clockMs h.lengthMs) ++ [c]).insertionSort earlier :=
            StableOrder.insertLast_insertionSort earlier _ c
        _ = windowOf (added ++ [c]) advanced.clockMs h.lengthMs := by
            rw [windowOf, List.filter_append, List.filter_cons_of_pos (covered.mpr joins),
              List.filter_nil]
    · rw [if_neg joins, held, windowOf, windowOf, List.filter_append,
        List.filter_cons_of_neg (fun inside => joins (covered.mp inside)), List.filter_nil,
        List.append_nil]
  · intro joined member
    obtain ⟨h, inside, rfl⟩ := List.mem_map.mp member
    split
    · exact h.add_tracks c (base.tracks h inside)
    · exact base.tracks h inside

end

inductive WindowCall where
  | add (record : FlowRecord)
  | advanceTo (newClockMs : Int64)

def call (w : DeviceWindows) : WindowCall → DeviceWindows
  | .add record => w.add record
  | .advanceTo newClockMs => (w.advanceTo newClockMs).1

def WindowCall.added? : WindowCall → Option Contribution
  | .add record => some (.of record)
  | .advanceTo _ => none

def WindowCall.Positive : WindowCall → Prop
  | .add record => 0 < record.eventTimeMs
  | .advanceTo _ => True

instance (made : WindowCall) : Decidable made.Positive := by
  cases made <;> unfold WindowCall.Positive <;> infer_instance

theorem run_covers (lengths : List Int64) (positiveLengths : ∀ length ∈ lengths, 0 < length)
    (calls : List WindowCall)
    (roomy : ∀ c ∈ calls.filterMap WindowCall.added?, ∀ length ∈ lengths,
      Room c.eventTimeMs length) :
    (Runs.run call (new lengths) calls).Covers lengths (calls.filterMap WindowCall.added?) := by
  induction calls using List.reverseRecOn with
  | nil => exact new_covers lengths
  | append_singleton calls last ih =>
      rw [List.filterMap_append] at roomy
      have before : ∀ c ∈ calls.filterMap WindowCall.added?, ∀ length ∈ lengths,
          Room c.eventTimeMs length := fun c member => roomy c (List.mem_append_left _ member)
      have covers := ih before
      rw [Runs.run_append, List.filterMap_append]
      cases last with
      | add record =>
          have fits := roomy (.of record) (List.mem_append_right _ (List.mem_singleton_self _))
          exact add_covers _ lengths _ positiveLengths before record fits covers
      | advanceTo newClockMs =>
          have none : [WindowCall.advanceTo newClockMs].filterMap WindowCall.added? = [] := rfl
          rw [none, List.append_nil]
          exact advance_covers _ lengths _ positiveLengths before newClockMs covers

theorem roomy_of_positive {calls : List WindowCall} (positive : ∀ made ∈ calls, made.Positive)
    (lengths : List Int64) : ∀ c ∈ calls.filterMap WindowCall.added?, ∀ length ∈ lengths,
      Room c.eventTimeMs length := by
  intro c member length _
  rcases List.mem_filterMap.mp member with ⟨made, inCalls, adds⟩
  have madePositive := positive made inCalls
  cases made with
  | add record =>
      cases adds
      exact room_of_positive madePositive length
  | advanceTo newClockMs => cases adds

/-- After every sequence of calls each horizon holds the flows its window covers, in order, and
its view is the one computed from scratch. -/
theorem views_recompute (lengths : List Int64) (positiveLengths : ∀ length ∈ lengths, 0 < length)
    (calls : List WindowCall) (positive : ∀ made ∈ calls, made.Positive) (deviceKey : String) :
    let w := Runs.run call (new lengths) calls
    let added := calls.filterMap WindowCall.added?
    w.horizons.map Horizon.contributions = lengths.map (windowOf added w.clockMs) ∧
      w.views deviceKey = lengths.map fun length =>
        recompute deviceKey w.clockMs length (windowOf added w.clockMs length) := by
  intro w added
  have covers : w.Covers lengths added :=
    run_covers lengths positiveLengths calls (roomy_of_positive positive lengths)
  rw [← covers.lengths, List.map_map, List.map_map, views]
  constructor
  · apply List.map_congr_left
    intro h member
    exact covers.held h member
  · apply List.map_congr_left
    intro h member
    rw [h.view_eq_recompute (covers.tracks h member), covers.held h member]
    rfl

/-- An unanswered probe of a port. -/
def probe (timeMs : Int64) (port : Int32) : FlowRecord where
  eventId := "gw/" ++ toString port
  deviceKey := "device"
  eventTimeMs := timeMs
  ingestTimeMs := timeMs
  remoteIp := "203.0.113.10"
  remotePort := port
  protocol := 1
  attemptOutcome := outcomeUnanswered
  bytesFromDevice := 60
  bytesToDevice := 0

/-- A flow that arrives 10 s late, and time passing after it. -/
def lateFlowCalls : List WindowCall :=
  [.add (probe 110000 22), .add (probe 130000 23), .add (probe 120000 24), .advanceTo 175000]

/-- 60 s and 900 s. -/
def minuteAndQuarter : List Int64 := [60000, 900000]

theorem minute_and_quarter_positive : ∀ length ∈ minuteAndQuarter, 0 < length := by
  intro length member
  simp only [minuteAndQuarter, List.mem_cons, List.not_mem_nil, or_false] at member
  rcases member with rfl | rfl <;> decide

theorem views_recompute_late_flow :
    let w := Runs.run call (new minuteAndQuarter) lateFlowCalls
    let added := lateFlowCalls.filterMap WindowCall.added?
    w.horizons.map Horizon.contributions = minuteAndQuarter.map (windowOf added w.clockMs) ∧
      w.views "device" = minuteAndQuarter.map fun length =>
        recompute "device" w.clockMs length (windowOf added w.clockMs length) :=
  views_recompute minuteAndQuarter minute_and_quarter_positive lateFlowCalls (by decide) "device"

example : ((Runs.run call (new minuteAndQuarter) lateFlowCalls).views "device").map
    (fun view => (view.flows, view.failedTargets, view.sampleEventIds)) =
      [(2, 2, ["gw/23", "gw/24"]), (3, 3, ["gw/23", "gw/24", "gw/22"])] := by decide

end DeviceWindows

end PiAgents.Detection
