import PiAgents.Spooling.Crashes

/-! What becomes of every appended number over any processes on one directory: it is acknowledged,
reported in one loss, or read again. -/

namespace PiAgents.Spooling

/-- What a process found, and what it has done with the numbers since. -/
structure Incarnation where
  /-- The numbers that waited when it opened the spool. -/
  present : List Nat
  appended : List Nat
  /-- The numbers that waited when they were acknowledged. -/
  acknowledged : List Nat
  /-- The losses returned, each with the numbers that its append has dropped. -/
  losses : List (Loss × List Nat)

namespace Incarnation

def opened (spool : Option Spool) : Incarnation := ⟨(spool.map Spool.waiting).getD [], [], [], []⟩

def append (i : Incarnation) (before after : Spool) (seq : Nat) (loss : Option Loss) :
    Incarnation :=
  { i with
    appended := i.appended ++ [seq]
    losses := i.losses ++ loss.toList.map fun l => (l, before.gone after) }

def acknowledge (i : Incarnation) (before : Spool) (seq : Nat) : Incarnation :=
  { i with acknowledged := i.acknowledged ++ if seq ∈ before.waiting then [seq] else [] }

def lost (i : Incarnation) : List Nat := i.losses.flatMap Prod.snd

end Incarnation

/-- The directory with its open spool, and the processes that have worked on it. -/
structure Custody where
  machine : Machine
  earlier : List Incarnation
  current : Incarnation

inductive CustodyStep where
  | call (call : Call)
  /-- The process dies between two calls. -/
  | crash
  /-- The process dies within an append, with this many bytes of the record written. -/
  | tear (event : Spool.Event) (torn : Nat)

namespace Custody

def start : Custody := ⟨⟨.empty, none⟩, [], .opened none⟩

/-- What the processes have together. -/
def all {α : Type} (h : Custody) (part : Incarnation → List α) : List α :=
  h.earlier.flatMap part ++ part h.current

/-- What is noted of a completed call. -/
def noted (h : Custody) (call : Call) : Incarnation :=
  match call, h.machine.spool with
  | .append event, some before =>
      match (before.append event).2 with
      | some answer => h.current.append before answer.1 answer.2.1 answer.2.2
      | none => h.current
  | .ack seq, some before => h.current.acknowledge before seq
  | _, _ => h.current

def step (h : Custody) : CustodyStep → Custody
  | .call (.open config) =>
      let machine := h.machine.step (.open config)
      ⟨machine, h.earlier ++ [h.current], .opened machine.spool⟩
  | .call call => ⟨h.machine.step call, h.earlier, h.noted call⟩
  | .crash => { h with machine := ⟨h.machine.disk, none⟩ }
  | .tear event torn =>
      let effects := (h.machine.perform (.append event)).effects
      { h with machine :=
          ⟨h.machine.disk.applyAll (Machine.cut effects (effects.length - 1) torn), none⟩ }

/-- Reading from the rewound position to the end returns the number. -/
def ReadBack (disk : Disk) (spool : Spool) (seq : Nat) : Prop :=
  ∀ limits : Nat → Nat, (∀ call, 0 < limits call) → ∃ calls,
    (spool.read disk (spool.reads disk limits spool.rewind calls).2 (limits calls)).1 = [] ∧
      seq ∈ (spool.reads disk limits spool.rewind calls).1.map (·.2.seq)

/-- What holds of the numbers in a state. -/
structure Accounted (h : Custody) : Prop where
  somewhere : ∀ spool ∈ h.machine.spool, ∀ seq ∈ h.all (·.appended),
    seq ∈ h.all (·.acknowledged) ∨ (h.all (·.lost)).count seq = 1 ∨
      ReadBack h.machine.disk spool seq
  counted : ∀ l ∈ h.all (·.losses), l.1.count = l.2.length ∧
    ∀ seq ∈ l.2, l.1.firstSeq ≤ seq ∧ seq ≤ l.1.lastSeq
  /-- What is acknowledged or lost is not read again. -/
  silent : ∀ spool ∈ h.machine.spool, ∀ seq ∈ h.current.acknowledged ++ h.current.lost,
    ∀ cursor limit, seq ∉ (spool.read h.machine.disk cursor limit).1.map (·.2.seq)
  apart : ∀ spool ∈ h.machine.spool, ∀ seq ∈ spool.waiting, seq ∉ h.all (·.lost)
  balance : ∀ spool ∈ h.machine.spool,
    h.current.present.length + h.current.appended.length = h.current.acknowledged.length +
      spool.unacked + (h.current.losses.map (·.1.count)).sum

/-- The body of a record written fits its length field, a torn record is a proper part, and no
process dies in an append that has dropped unacknowledged records to make room. -/
def Orderly (h : Custody) : CustodyStep → Prop
  | .call call => h.machine.Writes call
  | .crash => True
  | .tear event torn => ∀ spool ∈ h.machine.spool,
      (entryBody (event.entry spool.nextSeq)).length < 2 ^ 32 ∧
      torn < (encodeEntry (event.entry spool.nextSeq)).length ∧
      ∀ s ∈ spool.makesRoom event, s.unacked = 0

/-- As orderly, but a process may die in an append that drops what some process has acknowledged. -/
def Spared (h : Custody) : CustodyStep → Prop
  | .call call => h.machine.Writes call
  | .crash => True
  | .tear event torn => ∀ spool ∈ h.machine.spool,
      (entryBody (event.entry spool.nextSeq)).length < 2 ^ 32 ∧
      torn < (encodeEntry (event.entry spool.nextSeq)).length ∧
      ∀ s ∈ spool.makesRoom event, ∀ seq ∈ s.unackedSeqs, seq ∈ h.all (·.acknowledged)

/-- Where every number is: `waits` of those still to be sent, `held` of those in a segment. -/
structure Traced (h : Custody) (waits held : Nat → Prop) (next : Nat) : Prop where
  somewhere : ∀ seq ∈ h.all (·.appended),
    seq ∈ h.all (·.acknowledged) ∨ seq ∈ h.all (·.lost) ∨ waits seq
  marked : Spool.readNumber h.machine.disk.acked ≤ next
  delivered : ∀ seq ∈ h.all (·.appended), seq < Spool.readNumber h.machine.disk.acked →
    seq ∈ h.all (·.acknowledged) ∨ seq ∈ h.all (·.lost)
  known : ∀ seq, held seq → seq ∈ h.all (·.appended)
  gone : ∀ seq ∈ h.all (·.lost), seq < next ∧ ¬ held seq
  once : (h.all (·.lost)).Nodup
  counted : ∀ l ∈ h.all (·.losses), l.1.count = l.2.length ∧
    ∀ seq ∈ l.2, l.1.firstSeq ≤ seq ∧ seq ≤ l.1.lastSeq

/-- The books of the running process. -/
structure Booked (i : Incarnation) (spool : Spool) : Prop where
  silent : ∀ seq ∈ i.acknowledged ++ i.lost, seq < spool.nextSeq ∧ seq ∉ spool.waiting
  balance : i.present.length + i.appended.length =
    i.acknowledged.length + spool.waiting.length + (i.losses.map (·.1.count)).sum

inductive Sound (h : Custody) : Prop where
  | stopped {files : List StoredFile} (closed : h.machine.spool = none)
      (recoverable : Recoverable h.machine.disk files)
      (traced : h.Traced (Stored files) (Stored files)
        (Spool.readNumber h.machine.disk.sequence)) : h.Sound
  | running {spool : Spool} {log : Log} (opened : h.machine.spool = some spool)
      (agrees : Agrees h.machine.disk spool log)
      (traced : h.Traced (· ∈ spool.waiting) (fun seq => spool.contains seq = true) spool.nextSeq)
      (booked : Booked h.current spool) : h.Sound

theorem all_note {α : Type} (h : Custody) (machine : Machine) (i : Incarnation)
    (part : Incarnation → List α) {new : List α} (noted : part i = part h.current ++ new) :
    all ⟨machine, h.earlier, i⟩ part = h.all part ++ new := by
  rw [all, noted, ← List.append_assoc]
  rfl

theorem all_handed {α : Type} (h : Custody) (machine : Machine) (i : Incarnation)
    (part : Incarnation → List α) (empty : part i = []) :
    all ⟨machine, h.earlier ++ [h.current], i⟩ part = h.all part := by
  rw [all, all, empty, List.append_nil, List.flatMap_append, List.flatMap_cons, List.flatMap_nil,
    List.append_nil]

namespace Traced

variable {h : Custody} {waits held : Nat → Prop} {next : Nat}

theorem moved (traced : h.Traced waits held next) {machine : Machine} {waits' held' : Nat → Prop}
    {next' : Nat} (acked : machine.disk.acked = h.machine.disk.acked)
    (keeps : ∀ seq, waits seq → waits' seq ∨ seq ∈ h.all (·.acknowledged))
    (old : ∀ seq, held' seq → held seq) (above : next ≤ next') :
    Traced ⟨machine, h.earlier, h.current⟩ waits' held' next' where
  somewhere seq appended := by
    rcases traced.somewhere seq appended with done | gone | waiting
    · exact Or.inl done
    · exact Or.inr (Or.inl gone)
    · exact (keeps seq waiting).elim (fun still => Or.inr (Or.inr still)) Or.inl
  marked := by
    rw [acked]
    exact Nat.le_trans traced.marked above
  delivered seq appended below := by
    rw [acked] at below
    exact traced.delivered seq appended below
  known seq again := traced.known seq (old seq again)
  gone seq lost := ⟨Nat.lt_of_lt_of_le (traced.gone seq lost).1 above,
    fun again => (traced.gone seq lost).2 (old seq again)⟩
  once := traced.once
  counted := traced.counted

theorem handed (traced : h.Traced waits held next) (present : List Nat) :
    Traced ⟨h.machine, h.earlier ++ [h.current], ⟨present, [], [], []⟩⟩ waits held next := by
  have appended := h.all_handed h.machine ⟨present, [], [], []⟩ (·.appended) rfl
  have acknowledged := h.all_handed h.machine ⟨present, [], [], []⟩ (·.acknowledged) rfl
  have lost := h.all_handed h.machine ⟨present, [], [], []⟩ (·.lost) rfl
  have losses := h.all_handed h.machine ⟨present, [], [], []⟩ (·.losses) rfl
  constructor
  · rw [appended, acknowledged, lost]
    exact traced.somewhere
  · exact traced.marked
  · rw [appended, acknowledged, lost]
    exact traced.delivered
  · rw [appended]
    exact traced.known
  · rw [lost]
    exact traced.gone
  · rw [lost]
    exact traced.once
  · rw [losses]
    exact traced.counted

end Traced

end Custody

/-! What the calls do to the books. -/

namespace Custody

variable {h : Custody} {spool : Spool} {answer : Spool × Nat × Option Loss} {log dropped : Log}

theorem Traced.counts (inOrder : InOrder spool) (appends : Appends spool answer log dropped) :
    ∀ l ∈ answer.2.2.toList.map fun l => (l, spool.gone answer.1), l.1.count = l.2.length ∧
      ∀ seq ∈ l.2, l.1.firstSeq ≤ seq ∧ seq ≤ l.1.lastSeq := by
  intro l member
  rcases List.mem_map.mp member with ⟨loss, given, rfl⟩
  have reports := appends.reported.2 loss (Option.mem_toList.mp given)
  have sorted := inOrder.dropped_sorted appends
  change loss.count = (spool.gone answer.1).length ∧ ∀ seq ∈ spool.gone answer.1, _
  rw [appends.gone]
  exact ⟨reports.count, fun seq inDropped => ⟨sorted_head_le sorted reports.first seq inDropped,
    sorted_le_last sorted reports.last seq inDropped⟩⟩

theorem Traced.dropped_gone (inOrder : InOrder spool) (appends : Appends spool answer log dropped) :
    ∀ seq ∈ dropped.unackedSeqs, seq < answer.1.nextSeq ∧ ¬ answer.1.contains seq = true := by
  intro seq now
  rw [appends.next, appends.excludes seq now]
  exact ⟨Nat.lt_succ_of_lt (inOrder.below seq (appends.dropped_waited seq now)),
    Bool.false_ne_true⟩

theorem Traced.still_gone (appends : Appends spool answer log dropped) {seq : Nat}
    (gone : seq < spool.nextSeq ∧ ¬ spool.contains seq = true) :
    seq < answer.1.nextSeq ∧ ¬ answer.1.contains seq = true := by
  rw [appends.next]
  refine ⟨Nat.lt_succ_of_lt gone.1, ?_⟩
  intro again
  rcases appends.contained seq again with held | isNext
  · exact gone.2 held
  · exact Nat.ne_of_lt gone.1 isNext

theorem Traced.append
    (traced : h.Traced (· ∈ spool.waiting) (fun seq => spool.contains seq = true) spool.nextSeq)
    (inOrder : InOrder spool) (appends : Appends spool answer log dropped) {machine : Machine}
    (acked : machine.disk.acked = h.machine.disk.acked) :
    Traced ⟨machine, h.earlier, h.current.append spool answer.1 answer.2.1 answer.2.2⟩
      (· ∈ answer.1.waiting) (fun seq => answer.1.contains seq = true) answer.1.nextSeq := by
  have lostNow : (h.current.append spool answer.1 answer.2.1 answer.2.2).lost =
      h.current.lost ++ dropped.unackedSeqs := by
    rw [← appends.lost]
    exact List.flatMap_append
  have appended := all_note h machine (h.current.append spool answer.1 answer.2.1 answer.2.2)
    (·.appended) rfl
  have acknowledged := all_note h machine
    (h.current.append spool answer.1 answer.2.1 answer.2.2) (·.acknowledged)
    (List.append_nil _).symm
  have lost := all_note h machine (h.current.append spool answer.1 answer.2.1 answer.2.2)
    (·.lost) lostNow
  have losses := all_note h machine (h.current.append spool answer.1 answer.2.1 answer.2.2)
    (·.losses) rfl
  rw [List.append_nil] at acknowledged
  constructor
  · rw [appended, acknowledged, lost]
    intro seq member
    rcases List.mem_append.mp member with old | new
    · rcases traced.somewhere seq old with done | gone | waits
      · exact Or.inl done
      · exact Or.inr (Or.inl (List.mem_append_left _ gone))
      · rcases appends.waits waits with now | still
        · exact Or.inr (Or.inl (List.mem_append_right _ now))
        · exact Or.inr (Or.inr still)
    · rw [List.mem_singleton.mp new, appends.seq]
      exact Or.inr (Or.inr (appends.new_waits inOrder.below))
  · change Spool.readNumber machine.disk.acked ≤ answer.1.nextSeq
    rw [acked, appends.next]
    exact Nat.le_succ_of_le traced.marked
  · rw [appended, acknowledged, lost]
    change ∀ seq ∈ _, seq < Spool.readNumber machine.disk.acked → _
    rw [acked]
    intro seq member below
    rcases List.mem_append.mp member with old | new
    · exact (traced.delivered seq old below).imp_right (List.mem_append_left _)
    · have marked := traced.marked
      have same := (List.mem_singleton.mp new).trans appends.seq
      omega
  · rw [appended]
    intro seq again
    rcases appends.contained seq again with held | isNext
    · exact List.mem_append_left _ (traced.known seq held)
    · rw [isNext, ← appends.seq]
      exact List.mem_append_right _ (List.mem_singleton_self _)
  · rw [lost]
    intro seq member
    rcases List.mem_append.mp member with old | now
    · exact Traced.still_gone appends (traced.gone seq old)
    · exact Traced.dropped_gone inOrder appends seq now
  · rw [lost]
    apply List.nodup_append.mpr
    refine ⟨traced.once, (inOrder.dropped_sorted appends).imp Nat.ne_of_lt, ?_⟩
    intro seq old other now same
    rw [same] at old
    exact (traced.gone other old).2
      (Spool.contains_of_waiting (appends.dropped_waited other now))
  · rw [losses]
    intro l member
    rcases List.mem_append.mp member with old | now
    · exact traced.counted l old
    · exact Traced.counts inOrder appends l now

theorem Booked.append {i : Incarnation} (booked : Booked i spool) (inOrder : InOrder spool)
    (appends : Appends spool answer log dropped) :
    Booked (i.append spool answer.1 answer.2.1 answer.2.2) answer.1 := by
  have lostNow : (i.append spool answer.1 answer.2.1 answer.2.2).lost =
      i.lost ++ dropped.unackedSeqs := by
    rw [← appends.lost]
    exact List.flatMap_append
  have old : ∀ seq ∈ i.acknowledged ++ i.lost,
      seq < answer.1.nextSeq ∧ seq ∉ answer.1.waiting := by
    intro seq member
    have before := booked.silent seq member
    refine ⟨?_, ?_⟩
    · rw [appends.next]
      exact Nat.lt_succ_of_lt before.1
    · intro waits
      rcases appends.waited waits with waited | isNext
      · exact before.2 waited
      · have below := before.1
        omega
  constructor
  · intro seq member
    change seq ∈ i.acknowledged ++ (i.append _ _ _ _).lost at member
    rw [lostNow, ← List.append_assoc] at member
    rcases List.mem_append.mp member with before | now
    · exact old seq before
    · refine ⟨?_, appends.dropped_apart now⟩
      rw [appends.next]
      exact Nat.lt_succ_of_lt (inOrder.below seq (appends.dropped_waited seq now))
  · have lengths := congrArg List.length appends.waiting
    have count : (answer.2.2.toList.map (·.count)).sum = dropped.unackedSeqs.length := by
      cases given : answer.2.2 with
      | none =>
          rw [appends.reported.1 given]
          rfl
      | some loss =>
          rw [← (appends.reported.2 loss given).count, Option.toList_some, List.map_singleton,
            List.sum_singleton]
    have sums : ((i.append spool answer.1 answer.2.1 answer.2.2).losses.map (·.1.count)).sum =
        (i.losses.map (·.1.count)).sum + (answer.2.2.toList.map (·.count)).sum := by
      change ((i.losses ++ _).map _).sum = _
      rw [List.map_append, List.sum_append, List.map_map]
      rfl
    have balance := booked.balance
    rw [sums, count]
    change i.present.length + (i.appended ++ [answer.2.1]).length = _
    simp only [List.length_append, List.length_singleton] at lengths ⊢
    change i.present.length + (i.appended.length + 1) = i.acknowledged.length +
      answer.1.waiting.length + _
    omega

section Acknowledge

variable {seq : Nat} {after : Spool}

theorem Traced.acknowledge
    (traced : h.Traced (· ∈ spool.waiting) (fun seq => spool.contains seq = true) spool.nextSeq)
    (acknowledges : Acknowledges spool seq after) {machine : Machine}
    (acked : machine.disk.acked = h.machine.disk.acked) :
    Traced ⟨machine, h.earlier, h.current.acknowledge spool seq⟩
      (· ∈ after.waiting) (fun seq => after.contains seq = true) after.nextSeq := by
  have appended := all_note h machine (h.current.acknowledge spool seq) (·.appended)
    (List.append_nil _).symm
  have acknowledged := all_note h machine (h.current.acknowledge spool seq) (·.acknowledged) rfl
  have lost := all_note h machine (h.current.acknowledge spool seq) (·.lost)
    (List.append_nil _).symm
  have losses := all_note h machine (h.current.acknowledge spool seq) (·.losses)
    (List.append_nil _).symm
  rw [List.append_nil] at appended lost losses
  constructor
  · rw [appended, acknowledged, lost]
    intro other member
    rcases traced.somewhere other member with done | gone | waits
    · exact Or.inl (List.mem_append_left _ done)
    · exact Or.inr (Or.inl gone)
    · by_cases same : other = seq
      · rw [← same, if_pos waits]
        exact Or.inl (List.mem_append_right _ (List.mem_singleton_self _))
      · rw [acknowledges.waiting]
        exact Or.inr (Or.inr ((List.mem_erase_of_ne same).mpr waits))
  · change Spool.readNumber machine.disk.acked ≤ after.nextSeq
    rw [acked, acknowledges.next]
    exact traced.marked
  · rw [appended, acknowledged, lost]
    change ∀ seq ∈ _, seq < Spool.readNumber machine.disk.acked → _
    rw [acked]
    intro other member below
    exact (traced.delivered other member below).imp_left (List.mem_append_left _)
  · rw [appended]
    exact fun other again => traced.known other (acknowledges.contained other again)
  · rw [lost, acknowledges.next]
    intro other member
    have before := traced.gone other member
    exact ⟨before.1, fun again => before.2 (acknowledges.contained other again)⟩
  · rw [lost]
    exact traced.once
  · rw [losses]
    exact traced.counted

theorem Booked.acknowledge {i : Incarnation} (booked : Booked i spool) (inOrder : InOrder spool)
    (acknowledges : Acknowledges spool seq after) :
    Booked (i.acknowledge spool seq) after := by
  have distinct : spool.waiting.Nodup := inOrder.sorted.imp Nat.ne_of_lt
  constructor
  · rw [acknowledges.next, acknowledges.waiting]
    have old : ∀ other ∈ i.acknowledged ++ i.lost,
        other < spool.nextSeq ∧ other ∉ spool.waiting.erase seq := by
      intro other member
      have before := booked.silent other member
      exact ⟨before.1, fun again => before.2 (List.mem_of_mem_erase again)⟩
    intro other member
    change other ∈ (i.acknowledged ++ if seq ∈ spool.waiting then [seq] else []) ++ i.lost at member
    rcases List.mem_append.mp member with noted | gone
    · rcases List.mem_append.mp noted with before | now
      · exact old other (List.mem_append_left _ before)
      · split at now
        · rw [List.mem_singleton.mp now]
          exact ⟨inOrder.below seq ‹_›, distinct.not_mem_erase⟩
        · cases now
    · exact old other (List.mem_append_right _ gone)
  · have balance := booked.balance
    rw [acknowledges.waiting]
    change i.present.length + i.appended.length =
      (i.acknowledged ++ if seq ∈ spool.waiting then [seq] else []).length +
        (spool.waiting.erase seq).length + (i.losses.map (·.1.count)).sum
    by_cases waits : seq ∈ spool.waiting
    · have positive := List.length_pos_of_mem waits
      rw [if_pos waits, List.length_append, List.length_singleton, List.length_erase_of_mem waits]
      omega
    · rw [if_neg waits, List.append_nil, List.erase_of_not_mem waits]
      exact balance

end Acknowledge

theorem Traced.sync {disk : Disk} (agrees : Agrees disk spool log)
    (traced : h.Traced (· ∈ spool.waiting) (fun seq => spool.contains seq = true) spool.nextSeq)
    {machine : Machine} (written : machine.disk.acked = some (numberLine spool.ackWatermark)) :
    Traced ⟨machine, h.earlier, h.current⟩ (· ∈ spool.waiting)
      (fun seq => spool.contains seq = true) spool.nextSeq := by
  have least := agrees.least_unacked
  have reached : spool.ackWatermark ≤ spool.nextSeq := by
    rcases least.2 with some' | ⟨_, same⟩
    · exact Nat.le_of_lt (agrees.ordered.unackedSeqs_below _ some')
    · exact Nat.le_of_eq same
  have bound : spool.ackWatermark < 2 ^ 64 := by
    have reserved := agrees.reserved
    have fits := agrees.fits
    omega
  have marked : Spool.readNumber machine.disk.acked = spool.ackWatermark := by
    rw [written, readNumber_numberLine bound]
  refine ⟨traced.somewhere, ?_, ?_, traced.known, traced.gone, traced.once, traced.counted⟩
  · change Spool.readNumber machine.disk.acked ≤ _
    rw [marked]
    exact reached
  · intro seq member below
    change seq < Spool.readNumber machine.disk.acked at below
    rw [marked] at below
    rcases traced.somewhere seq member with done | gone | waits
    · exact Or.inl done
    · exact Or.inr gone
    · rw [agrees.toLayout.waiting] at waits
      have above := least.1 seq waits
      omega

namespace Sound

theorem files (sound : h.Sound) : ∃ files, Recoverable h.machine.disk files ∧
    h.Traced (Stored files) (Stored files) (Spool.readNumber h.machine.disk.sequence) := by
  cases sound with
  | stopped closed recoverable traced => exact ⟨_, recoverable, traced⟩
  | @running spool log opened agrees traced booked =>
      rcases agrees.stops with ⟨files, recoverable, stored⟩
      have reached : spool.nextSeq ≤ Spool.readNumber h.machine.disk.sequence := by
        rw [agrees.inFile]
        exact agrees.reserved
      refine ⟨files, recoverable, ?_⟩
      refine traced.moved rfl ?_ ?_ reached
      · intro seq waits
        exact Or.inl ((stored seq).mpr (Spool.contains_of_waiting waits))
      · intro seq again
        exact (stored seq).mp again

theorem crash (sound : h.Sound) : (h.step .crash).Sound := by
  rcases sound.files with ⟨files, recoverable, traced⟩
  exact .stopped rfl recoverable
    (traced.moved rfl (fun _ stored => Or.inl stored) (fun _ stored => stored) (Nat.le_refl _))

/-- The process that recovers the files has every number but those below the watermark. -/
theorem reopened {files : List StoredFile} (recoverable : Recoverable h.machine.disk files)
    (traced : h.Traced (Stored files) (Stored files) (Spool.readNumber h.machine.disk.sequence))
    {config : SpoolConfig} {spool : Spool}
    (opened : (Spool.open config h.machine.disk).2 = some spool) :
    (h.step (.call (.open config))).Sound := by
  rcases Agrees.recovered recoverable opened with ⟨front, log, agrees, parts, _, acked, unacked⟩
  rcases open_reserves config h.machine.disk with ⟨_, _, reserves⟩
  have reached := (reserves spool opened).2.1
  have waits : ∀ seq, seq ∈ spool.waiting ↔
      Spool.readNumber h.machine.disk.acked ≤ seq ∧ Stored files seq := by
    intro seq
    rw [agrees.toLayout.waiting]
    exact unacked seq
  have stored : ∀ seq, spool.contains seq = true → Stored files seq :=
    fun seq => agrees.stored_recovered parts
  have step : h.step (.call (.open config)) =
      ⟨⟨h.machine.disk.applyAll (Spool.open config h.machine.disk).1, some spool⟩,
        h.earlier ++ [h.current], ⟨spool.waiting, [], [], []⟩⟩ := by
    simp only [Custody.step, Machine.step, Machine.perform, opened]
    rfl
  have begun := traced.handed spool.waiting
  rw [step]
  refine .running rfl agrees ⟨?_, ?_, ?_, ?_, ?_, begun.once, begun.counted⟩ ⟨?_, ?_⟩
  · intro seq member
    rcases begun.somewhere seq member with done | gone | inFiles
    · exact Or.inl done
    · exact Or.inr (Or.inl gone)
    · by_cases above : Spool.readNumber h.machine.disk.acked ≤ seq
      · exact Or.inr (Or.inr ((waits seq).mpr ⟨above, inFiles⟩))
      · exact (begun.delivered seq member (Nat.lt_of_not_le above)).imp_right Or.inl
  · change Spool.readNumber (h.machine.disk.applyAll _).acked ≤ spool.nextSeq
    rw [acked]
    exact Nat.le_trans begun.marked reached
  · intro seq member below
    change seq < Spool.readNumber (h.machine.disk.applyAll _).acked at below
    rw [acked] at below
    exact begun.delivered seq member below
  · intro seq held
    exact begun.known seq (stored seq held)
  · intro seq member
    have before := begun.gone seq member
    exact ⟨Nat.lt_of_lt_of_le before.1 reached, fun held => before.2 (stored seq held)⟩
  · intro seq member
    cases member
  · change spool.waiting.length + 0 = 0 + spool.waiting.length + 0
    omega

theorem refused {files : List StoredFile} (recoverable : Recoverable h.machine.disk files)
    (traced : h.Traced (Stored files) (Stored files) (Spool.readNumber h.machine.disk.sequence))
    {config : SpoolConfig} (opened : (Spool.open config h.machine.disk).2 = none) :
    (h.step (.call (.open config))).Sound := by
  have step : h.step (.call (.open config)) =
      ⟨⟨h.machine.disk.applyAll (Spool.open config h.machine.disk).1, none⟩,
        h.earlier ++ [h.current], ⟨[], [], [], []⟩⟩ := by
    simp only [Custody.step, Machine.step, Machine.perform, opened]
    rfl
  have begun := traced.handed []
  rw [step]
  rcases open_refused opened with nothing | recovery
  · rw [nothing]
    exact .stopped rfl recoverable
      (begun.moved rfl (fun _ stored => Or.inl stored) (fun _ stored => stored) (Nat.le_refl _))
  · rw [recovery]
    have numbers := numbers_applyAll h.machine.disk
      (h.machine.disk.sorted.flatMap Spool.recoveryEffects)
    rw [recovery_quiet] at numbers
    have sequence := congrArg Prod.fst numbers
    have acked := acked_applyAll h.machine.disk (recovery_marks h.machine.disk.sorted)
    refine .stopped rfl recoverable.clean (begun.moved acked ?_ ?_ ?_)
    · exact fun seq stored => Or.inl (Recoverable.stored_cleaned.mpr stored)
    · exact fun seq stored => Recoverable.stored_cleaned.mp stored
    · exact Nat.le_of_eq (congrArg Spool.readNumber sequence.symm)

theorem opens (sound : h.Sound) (config : SpoolConfig) : (h.step (.call (.open config))).Sound := by
  rcases sound.files with ⟨files, recoverable, traced⟩
  cases opened : (Spool.open config h.machine.disk).2 with
  | some spool => exact reopened recoverable traced opened
  | none => exact refused recoverable traced opened

theorem unopened (sound : h.Sound) (closed : h.machine.spool = none) {call : Call}
    (other : ∀ config, call ≠ .open config) : (h.step (.call call)).Sound := by
  rcases sound.files with ⟨files, recoverable, traced⟩
  have step : h.step (.call call) = ⟨⟨h.machine.disk, none⟩, h.earlier, h.current⟩ := by
    cases call with
    | «open» config => exact absurd rfl (other config)
    | append event =>
        simp only [Custody.step, Machine.step, Machine.perform, noted, closed]
        rfl
    | ack seq =>
        simp only [Custody.step, Machine.step, Machine.perform, noted, closed]
        rfl
    | sync =>
        simp only [Custody.step, Machine.step, Machine.perform, noted, closed]
        rfl
  rw [step]
  exact .stopped rfl recoverable
    (traced.moved rfl (fun _ stored => Or.inl stored) (fun _ stored => stored) (Nat.le_refl _))

theorem appends (sound : h.Sound) (event : Spool.Event) (writes : h.machine.Writes (.append event)) :
    (h.step (.call (.append event))).Sound := by
  cases sound with
  | stopped closed recoverable traced =>
      exact unopened (.stopped closed recoverable traced) closed fun config same => by cases same
  | @running spool log opened agrees traced booked =>
      cases given : (spool.append event).2 with
      | none =>
          have effects : (spool.append event).1 = [] := by
            rcases agrees.toLayout.append event with failed | ⟨_, _, whole, _⟩
            · rw [failed]
            · rw [whole] at given
              cases given
          have step : h.step (.call (.append event)) =
              ⟨⟨h.machine.disk, none⟩, h.earlier, h.current⟩ := by
            simp only [Custody.step, Machine.step, Machine.perform, noted, opened, given, effects,
              Option.map_none]
            rfl
          rw [step]
          exact crash (.running opened agrees traced booked)
      | some answer =>
          rcases agrees.append (writes spool opened) given with
            ⟨_, _, _, _, _, _, _, _, _, _, _, after⟩
          rcases agrees.toLayout.appends given with ⟨dropped, _, appends, _, _⟩
          have step : h.step (.call (.append event)) =
              ⟨⟨h.machine.disk.applyAll (spool.append event).1, some answer.1⟩, h.earlier,
                h.current.append spool answer.1 answer.2.1 answer.2.2⟩ := by
            simp only [Custody.step, Machine.step, Machine.perform, noted, opened, given,
              Option.map_some]
          have acked := acked_applyAll h.machine.disk (Spool.append_marks spool event)
          have inOrder := agrees.toLayout.inOrder
          rw [step]
          exact .running rfl after (traced.append inOrder appends acked)
            (booked.append inOrder appends)

theorem acks (sound : h.Sound) (seq : Nat) : (h.step (.call (.ack seq))).Sound := by
  cases sound with
  | stopped closed recoverable traced =>
      exact unopened (.stopped closed recoverable traced) closed fun config same => by cases same
  | @running spool log opened agrees traced booked =>
      rcases agrees.ack seq with ⟨_, _, _, _, after⟩
      have acknowledges := agrees.toLayout.acknowledges seq
      have step : h.step (.call (.ack seq)) =
          ⟨⟨h.machine.disk.applyAll (spool.ack seq).1, some (spool.ack seq).2⟩, h.earlier,
            h.current.acknowledge spool seq⟩ := by
        simp only [Custody.step, Machine.step, Machine.perform, noted, opened]
      have acked := acked_applyAll h.machine.disk (Spool.ack_marks spool seq)
      rw [step]
      exact .running rfl after (traced.acknowledge acknowledges acked)
        (booked.acknowledge agrees.toLayout.inOrder acknowledges)

theorem syncs (sound : h.Sound) : (h.step (.call .sync)).Sound := by
  cases sound with
  | stopped closed recoverable traced =>
      exact unopened (.stopped closed recoverable traced) closed fun config same => by cases same
  | @running spool log opened agrees traced booked =>
      have step : h.step (.call .sync) =
          ⟨⟨h.machine.disk.applyAll spool.sync, some spool⟩, h.earlier, h.current⟩ := by
        simp only [Custody.step, Machine.step, Machine.perform, noted, opened]
      rw [step]
      exact .running rfl agrees.sync (traced.sync agrees rfl) booked

/-- A record is torn: what waited is found again, but for what was dropped to make room. -/
theorem tears (sound : h.Sound) (event : Spool.Event) (torn : Nat)
    (spared : h.Spared (.tear event torn)) : (h.step (.tear event torn)).Sound := by
  cases sound with
  | stopped closed recoverable traced =>
      have step : h.step (.tear event torn) = h.step .crash := by
        simp only [Custody.step, Machine.perform, closed]
        rfl
      rw [step]
      exact crash (.stopped closed recoverable traced)
  | @running spool log opened agrees traced booked =>
      rcases spared spool opened with ⟨body, proper, acknowledged⟩
      have step : h.step (.tear event torn) =
          ⟨⟨h.machine.disk.applyAll (Machine.cut (spool.append event).1
            ((spool.append event).1.length - 1) torn), none⟩, h.earlier, h.current⟩ := by
        simp only [Custody.step, Machine.perform, opened]
      cases given : (spool.append event).2 with
      | none =>
          have effects : (spool.append event).1 = [] := by
            rcases agrees.toLayout.append event with failed | ⟨_, _, whole, _⟩
            · rw [failed]
            · rw [whole] at given
              cases given
          rw [step, effects]
          exact crash (.running opened agrees traced booked)
      | some answer =>
          rcases agrees.torn body proper given with
            ⟨files, dropped, recoverable, _, room, old, kept, _⟩
          have acked := acked_applyAll h.machine.disk (cut_marks (Spool.append_marks spool event)
            ((spool.append event).1.length - 1) torn)
          rcases append_reserves h.machine.disk spool event agrees.inFile with ⟨_, reserves, _⟩
          have grown := reserves.cut ((spool.append event).1.length - 1) torn
          have reached := agrees.reserved
          rw [agrees.inFile] at grown
          rw [step]
          refine .stopped rfl recoverable (traced.moved acked ?_ old (Nat.le_trans reached grown))
          intro seq waits
          by_cases gone : seq ∈ dropped.unackedSeqs
          · rcases (dropped.mem_unackedSeqs seq).mp gone with ⟨segment, inDropped, unacked⟩
            have inRoom := List.mem_map_of_mem (f := Prod.fst) inDropped
            change segment.1 ∈ dropped.segments at inRoom
            rw [← room] at inRoom
            exact Or.inr (acknowledged segment.1 inRoom seq unacked)
          · exact Or.inl (kept seq waits gone)

theorem step (sound : h.Sound) (step : CustodyStep) (spared : h.Spared step) :
    (h.step step).Sound := by
  cases step with
  | call call =>
      cases call with
      | «open» config => exact sound.opens config
      | append event => exact sound.appends event spared
      | ack seq => exact sound.acks seq
      | sync => exact sound.syncs
  | crash => exact sound.crash
  | tear event torn => exact sound.tears event torn spared

theorem spared (sound : h.Sound) {step : CustodyStep} (orderly : h.Orderly step) :
    h.Spared step := by
  cases step with
  | call call => exact orderly
  | crash => trivial
  | tear event torn =>
      intro spool opened
      rcases orderly spool opened with ⟨body, proper, quiet⟩
      refine ⟨body, proper, ?_⟩
      intro s inRoom seq unacked
      cases sound with
      | stopped closed recoverable traced =>
          rw [closed] at opened
          cases opened
      | @running other log isOpen agrees traced booked =>
          cases isOpen.symm.trans opened
          have counted := agrees.toLayout.makesRoom_unacked inRoom
          rw [quiet s inRoom] at counted
          rw [List.length_eq_zero_iff.mp counted.symm] at unacked
          cases unacked

theorem accounted (sound : h.Sound) : h.Accounted := by
  cases sound with
  | stopped closed recoverable traced =>
      have none' : ∀ spool, spool ∉ h.machine.spool := by
        intro spool opened
        rw [closed] at opened
        cases opened
      exact ⟨fun spool opened => absurd opened (none' spool), traced.counted,
        fun spool opened => absurd opened (none' spool),
        fun spool opened => absurd opened (none' spool),
        fun spool opened => absurd opened (none' spool)⟩
  | @running spool log opened agrees traced booked =>
      have only : ∀ other ∈ h.machine.spool, other = spool := by
        intro other isOpen
        rw [opened] at isOpen
        exact (Option.some.inj isOpen).symm
      constructor
      · intro other isOpen seq member
        rw [only other isOpen]
        rcases traced.somewhere seq member with done | gone | waits
        · exact Or.inl done
        · exact Or.inr (Or.inl (List.count_eq_one_of_mem traced.once gone))
        · refine Or.inr (Or.inr ?_)
          intro limits positive
          rcases agrees.reads_waiting positive with ⟨calls, ended, all⟩
          exact ⟨calls, ended, all.symm ▸ waits⟩
      · exact traced.counted
      · intro other isOpen seq member cursor limit again
        rw [only other isOpen] at again
        rcases List.mem_map.mp again with ⟨found, isRead, rfl⟩
        exact (booked.silent _ member).2 (read_waiting spool h.machine.disk cursor limit found isRead)
      · intro other isOpen seq waits lost
        rw [only other isOpen] at waits
        exact (traced.gone seq lost).2 (Spool.contains_of_waiting waits)
      · intro other isOpen
        rw [only other isOpen, agrees.toLayout.unacked, ← agrees.toLayout.waiting]
        exact booked.balance

end Sound

theorem sound_start : start.Sound := by
  refine .stopped rfl recoverable_empty ⟨?_, Nat.le_refl 0, ?_, ?_, ?_, List.nodup_nil, ?_⟩
  · intro seq member
    cases member
  · intro seq member
    cases member
  · rintro seq ⟨f, member, _⟩
    cases member
  · intro seq member
    cases member
  · intro l member
    cases member

theorem sound_spared {steps : List CustodyStep} (spared : Runs.Meets step Spared start steps) :
    (Runs.run step start steps).Sound := by
  have preserves : ∀ (h : Custody) (event : CustodyStep), h.Sound → h.Spared event →
      (h.step event).Sound := fun h event sound condition => sound.step event condition
  exact Runs.run_invariant preserves sound_start spared

theorem sound_run {steps : List CustodyStep} (orderly : Runs.Meets step Orderly start steps) :
    (Runs.run step start steps).Sound := by
  have preserves : ∀ (h : Custody) (event : CustodyStep), h.Sound → h.Orderly event →
      (h.step event).Sound := fun h event sound condition => sound.step event (sound.spared condition)
  exact Runs.run_invariant preserves sound_start orderly

/-- In every orderly run over any processes on one directory, every number that an append returned
is acknowledged, counted in exactly one loss, or read again, and the books of the process balance. -/
theorem accounts (steps : List CustodyStep)
    (orderly : Runs.Meets step Orderly start steps) : (Runs.run step start steps).Accounted :=
  (sound_run orderly).accounted

/-- Room for two records of 27 bytes, each in a segment of its own. -/
def tight : SpoolConfig := ⟨30, 60⟩

theorem run_tight (steps : List CustodyStep) :
    Runs.run step start (.call (.open tight) :: steps) = Runs.run step
      ⟨⟨⟨[], some (numberLine 4096), none, none, none⟩, some ⟨tight, [], none, 0, 4096, 0⟩⟩,
        [.opened none], ⟨[], [], [], []⟩⟩ steps := by
  have fits : ¬ tight.maxBytes < 2 * tight.segmentBytes := by decide
  have sorted : Disk.empty.sorted = [] := List.mergeSort_nil
  have opened : Machine.step ⟨.empty, none⟩ (.open tight) =
      ⟨⟨[], some (numberLine 4096), none, none, none⟩, some ⟨tight, [], none, 0, 4096, 0⟩⟩ := by
    simp only [Machine.step, Machine.perform, Spool.open, fits, if_false, sorted, List.flatMap_nil,
      List.filterMap_nil]
    rfl
  have begun : start.step (.call (.open tight)) =
      ⟨Machine.step ⟨.empty, none⟩ (.open tight), [.opened none],
        .opened (Machine.step ⟨.empty, none⟩ (.open tight)).spool⟩ := rfl
  rw [Runs.run_cons, begun, opened]
  rfl

/-- The third record drops the first one, the second one is acknowledged, the fourth one torn. -/
def lossSteps : List CustodyStep :=
  [.call (.open tight), .call (.append plain), .call (.append plain), .call (.append plain),
    .call (.ack 1), .tear plain 3]

def lossDisk : Disk :=
  ⟨[(2, encodeEntry (plain.entry 2)), (3, (encodeEntry (plain.entry 3)).take 3)],
    some (numberLine 4096), none, none, none⟩

theorem loss_run : Runs.run step start lossSteps =
    ⟨⟨lossDisk, none⟩, [.opened none], ⟨[], [0, 1, 2], [1], [(⟨1, 0, 0, 0, 0⟩, [0])]⟩⟩ := by
  rw [lossSteps, run_tight]
  rfl

theorem loss_spool : (Runs.run step start lossSteps.dropLast).machine.spool =
    some ⟨tight, [⟨2, 2, 1, [false], 1, 0, 0, 27⟩], some 2, 3, 4096, 27⟩ := by
  rw [lossSteps, List.dropLast_cons_cons, run_tight]
  decide +kernel

theorem loss_opened : (Spool.open tight lossDisk).2 =
    some ⟨tight, [⟨2, 2, 1, [false], 1, 0, 0, 27⟩], none, 4096, 8192, 27⟩ := by
  have fits : ¬ tight.maxBytes < 2 * tight.segmentBytes := by decide
  have sorted := lossDisk.sorted_of_increasing (by decide)
  simp only [Spool.open, fits, if_false, sorted]
  decide +kernel

theorem accounts_tight :
    (Runs.run step start (lossSteps ++ [.call (.open tight)])).Accounted ∧
      (Runs.run step start (lossSteps ++ [.call (.open tight)])).machine.spool.map Spool.waiting =
        some [2] := by
  constructor
  · apply accounts
    apply Runs.meets_append.mpr
    refine ⟨⟨trivial, writes_plain _, writes_plain _, writes_plain _, trivial, ?_, trivial⟩,
      trivial, trivial⟩
    intro spool opened
    have isOpen : spool ∈ (Runs.run step start lossSteps.dropLast).machine.spool := opened
    rw [loss_spool] at isOpen
    cases isOpen
    refine ⟨by rw [entryBody_length]; decide, by rw [encodeEntry_length]; decide, ?_⟩
    intro s inRoom
    cases inRoom
  · rw [Runs.run_append, loss_run]
    simp only [Runs.run_cons, Runs.run_nil, step, Machine.step, Machine.perform, loss_opened]
    rfl

end Custody

end PiAgents.Spooling
