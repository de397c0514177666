import PiAgents.Capture.Attempts

/-! Every call of the flow table is a sequence of moves on single flows: one is closed, a packet
opens one or is recorded in an open one, and old 5-tuples are forgotten. -/

namespace PiAgents.Capture

inductive Move where
  | close (record : FlowRecord)
  | observe (obs : Observation)
  | forget

def Move.emits : Move → List FlowRecord
  | .close record => [record]
  | .observe _ => []
  | .forget => []

def Move.observation : Move → List Observation
  | .close _ => []
  | .observe obs => [obs]
  | .forget => []

/-- The packet of the move came at this time. -/
def Move.At (timeUs : Int) : Move → Prop
  | .close _ => True
  | .observe obs => obs.timestampUs = timeUs
  | .forget => True

namespace FlowTable

inductive Step : FlowTable → Move → FlowTable → Prop
  | close {table : FlowTable} {key : FlowKey} {flow : MicroFlow}
      (present : table.get key = some flow) :
      Step table (.close (table.removeAndClose key flow).2) (table.removeAndClose key flow).1
  | insert {table : FlowTable} {obs : Observation} (absent : table.get obs.key = none)
      (room : table.len < table.capacity) : Step table (.observe obs) (table.insertNew obs)
  | update {table : FlowTable} {obs : Observation} {flow : MicroFlow}
      (present : table.get obs.key = some flow) (current : table.due flow obs.timestampUs = false) :
      Step table (.observe obs)
        { table with entries := table.entries.insert obs.key (flow.record obs) }
  | forget {table : FlowTable} (keep : Sigma (fun _ : FlowKey => Direction × Int) → Bool) :
      Step table .forget { table with recent := retain keep table.recent }

theorem get_withTimeouts (capacity : Nat) (capacity_pos : 0 < capacity) (idleUs activeUs : Int)
    (key : FlowKey) :
    (withTimeouts capacity capacity_pos idleUs activeUs).get key = none :=
  AList.lookup_empty key

theorem not_open {table : FlowTable} {key : FlowKey} {flow : MicroFlow}
    (closed : table.get key = none) (held : table.get key = some flow) : False := by
  rw [closed] at held
  cases held

/-- What a packet makes of the flow that it is recorded in. -/
inductive Recorded (table : FlowTable) (obs : Observation) : MicroFlow → Prop
  | fresh (known : Option Direction) : Recorded table obs ((MicroFlow.new obs known).record obs)
  | further {flow : MicroFlow} (present : table.get obs.key = some flow)
      (current : table.due flow obs.timestampUs = false) : Recorded table obs (flow.record obs)

theorem Recorded.lastPacketUs_eq {table : FlowTable} {obs : Observation} {flow : MicroFlow}
    (recorded : Recorded table obs flow)
    (past : ∀ key other, table.get key = some other → other.lastPacketUs ≤ obs.timestampUs) :
    flow.lastPacketUs = obs.timestampUs := by
  cases recorded with
  | fresh known => exact max_self obs.timestampUs
  | further present current => exact max_eq_right (past obs.key _ present)

theorem Step.emitted {before after : FlowTable} {move : Move} (step : Step before move after) :
    ∀ record ∈ move.emits, before.get record.key = some record.flow := by
  intro record member
  cases step with
  | close present =>
      rw [List.mem_singleton.mp member]
      exact present
  | insert absent room => cases member
  | update present current => cases member
  | forget keep => cases member

theorem Step.opened {before after : FlowTable} {move : Move} (step : Step before move after)
    {key : FlowKey} {flow : MicroFlow} (held : after.get key = some flow) :
    before.get key = some flow ∨ ∃ obs, move = .observe obs ∧ Recorded before obs flow := by
  cases step with
  | @close closed old present =>
      by_cases same : key = closed
      · have gone : (before.removeAndClose closed old).1.get closed = none :=
          AList.lookup_erase closed before.entries
        rw [same] at held
        exact (not_open gone held).elim
      · exact .inl ((AList.lookup_erase_ne same).symm.trans held)
  | @insert obs absent room =>
      by_cases same : key = obs.key
      · rw [same] at held
        have recorded := Option.some.inj ((AList.lookup_insert before.entries).symm.trans held)
        exact .inr ⟨obs, rfl, recorded ▸ .fresh _⟩
      · exact .inl ((AList.lookup_insert_ne same).symm.trans held)
  | @update obs old present current =>
      by_cases same : key = obs.key
      · rw [same] at held
        have recorded := Option.some.inj ((AList.lookup_insert before.entries).symm.trans held)
        exact .inr ⟨obs, rfl, recorded ▸ .further present current⟩
      · exact .inl ((AList.lookup_insert_ne same).symm.trans held)
  | forget keep => exact .inl held

inductive Moves : FlowTable → List Move → FlowTable → Prop
  | nil (table : FlowTable) : Moves table [] table
  | cons {first middle last : FlowTable} {move : Move} {moves : List Move}
      (step : Step first move middle) (rest : Moves middle moves last) :
      Moves first (move :: moves) last

theorem Moves.append {first middle last : FlowTable} {early late : List Move}
    (one : Moves first early middle) (two : Moves middle late last) :
    Moves first (early ++ late) last := by
  induction one with
  | nil table => exact two
  | cons step rest ih => exact .cons step (ih two)

theorem Moves.single {first last : FlowTable} {move : Move} (step : Step first move last) :
    Moves first [move] last :=
  .cons step (.nil last)

/-- What holds of the table and of the records so far, and is kept by every move, is kept by all. -/
theorem Moves.preserves {invariant : FlowTable → List FlowRecord → Prop} {condition : Move → Prop}
    (keeps : ∀ {table move after out}, Step table move after → condition move →
      invariant table out → invariant after (out ++ move.emits))
    {before after : FlowTable} {moves : List Move} (all : Moves before moves after)
    (allowed : ∀ move ∈ moves, condition move) {out : List FlowRecord}
    (holds : invariant before out) : invariant after (out ++ moves.flatMap Move.emits) := by
  induction all generalizing out with
  | nil table =>
      rw [List.flatMap_nil, List.append_nil]
      exact holds
  | cons step rest ih =>
      rw [List.flatMap_cons, ← List.append_assoc]
      apply ih (fun move member => allowed move (List.mem_cons_of_mem _ member))
      exact keeps step (allowed _ List.mem_cons_self) holds

section

variable (table : FlowTable)

private theorem len_eq_keys : table.len = table.entries.keys.length := by
  rw [AList.keys, List.keys.eq_def, List.length_map]
  rfl

theorem len_removeAndClose {key : FlowKey} {flow : MicroFlow}
    (present : table.get key = some flow) :
    (table.removeAndClose key flow).1.len + 1 = table.len := by
  have looked : (table.entries.lookup key).isSome = true :=
    congrArg Option.isSome (show table.entries.lookup key = some flow from present)
  have member : key ∈ table.entries.keys := AList.mem_keys.mp (AList.lookup_isSome.mp looked)
  rw [len_eq_keys, len_eq_keys]
  change (table.entries.erase key).keys.length + 1 = table.entries.keys.length
  rw [AList.keys_erase, List.length_erase_of_mem member]
  exact Nat.sub_add_cancel (List.length_pos_of_mem member)

private theorem len_insertNew {obs : Observation} (absent : table.get obs.key = none) :
    (table.insertNew obs).len = table.len + 1 := by
  have fresh : obs.key ∉ table.entries.keys := by
    intro member
    have open' := AList.lookup_isSome.mpr (AList.mem_keys.mpr member)
    rw [show table.entries.lookup obs.key = none from absent] at open'
    cases open'
  rw [len_eq_keys, len_eq_keys]
  change (table.entries.insert obs.key _).keys.length = _
  rw [AList.keys_insert, List.length_cons, List.erase_of_not_mem fresh]

private theorem len_update {obs : Observation} {flow : MicroFlow}
    (present : table.get obs.key = some flow) :
    ({ table with entries := table.entries.insert obs.key (flow.record obs) } : FlowTable).len =
      table.len := by
  have looked : (table.entries.lookup obs.key).isSome = true :=
    congrArg Option.isSome (show table.entries.lookup obs.key = some flow from present)
  have member : obs.key ∈ table.entries.keys := AList.mem_keys.mp (AList.lookup_isSome.mp looked)
  rw [len_eq_keys, len_eq_keys]
  change (table.entries.insert obs.key _).keys.length = _
  rw [AList.keys_insert, List.length_cons, List.length_erase_of_mem member]
  exact Nat.sub_add_cancel (List.length_pos_of_mem member)

end

theorem emits_of_closes (out : List FlowRecord) :
    (out.map Move.close).flatMap Move.emits = out := by
  rw [List.flatMap_map]
  exact List.flatMap_singleton' out

/-- The table has no more flows than its capacity. -/
def Bounded (table : FlowTable) : Prop := table.len ≤ table.capacity

theorem Step.bounded {before after : FlowTable} {move : Move} (step : Step before move after)
    (bounded : before.Bounded) : after.Bounded := by
  unfold Bounded at bounded ⊢
  cases step with
  | close present =>
      have one := len_removeAndClose before present
      change _ ≤ before.capacity
      omega
  | insert absent room =>
      rw [len_insertNew before absent]
      exact room
  | update present current =>
      rw [len_update before present]
      exact bounded
  | forget keep => exact bounded

theorem Moves.bounded {before after : FlowTable} {moves : List Move}
    (all : Moves before moves after) (bounded : before.Bounded) : after.Bounded := by
  induction all with
  | nil table => exact bounded
  | cons step rest ih => exact ih (step.bounded bounded)

/-- The timeouts and the capacity are those of the constructor. -/
structure SameLimits (before after : FlowTable) : Prop where
  capacity : after.capacity = before.capacity
  idle : after.idleUs = before.idleUs
  active : after.activeUs = before.activeUs

theorem Step.sameLimits {before after : FlowTable} {move : Move} (step : Step before move after) :
    SameLimits before after := by
  cases step with
  | close present => exact ⟨rfl, rfl, rfl⟩
  | insert absent room => exact ⟨rfl, rfl, rfl⟩
  | update present current => exact ⟨rfl, rfl, rfl⟩
  | forget keep => exact ⟨rfl, rfl, rfl⟩

theorem Moves.sameLimits {before after : FlowTable} {moves : List Move}
    (all : Moves before moves after) : SameLimits before after := by
  induction all with
  | nil table => exact ⟨rfl, rfl, rfl⟩
  | cons step rest ih =>
      have first := step.sameLimits
      exact ⟨ih.capacity.trans first.capacity, ih.idle.trans first.idle,
        ih.active.trans first.active⟩

section

variable (table : FlowTable)

theorem drainKeys_moves (keys : List FlowKey) :
    Moves table ((table.drainKeys keys).2.map .close) (table.drainKeys keys).1 := by
  induction keys generalizing table with
  | nil => exact .nil table
  | cons key keys ih =>
      unfold drainKeys
      split
      · next flow present => exact .cons (.close present) (ih _)
      · exact ih table

theorem flushDue_moves (nowUs : Int) :
    Moves table ((table.flushDue nowUs).2.map .close ++ [.forget]) (table.flushDue nowUs).1 :=
  (drainKeys_moves table _).append (.single (.forget _))

theorem flushAll_moves : Moves table (table.flushAll.2.map .close) table.flushAll.1 :=
  drainKeys_moves table _

theorem evict_moves : Moves table (table.evict.2.1.map .close) table.evict.1 := by
  unfold evict
  split
  · split
    · next entry oldest => exact .single (.close (oldest_open table entry oldest))
    · exact .nil table
  · exact .nil table

theorem oldest_isSome (full : table.capacity ≤ table.len) :
    ∃ entry, table.oldest = some entry := by
  have positive : 0 < table.entries.entries.length := table.capacity_pos.trans_le full
  have sorted : 0 < (table.entries.entries.insertionSort evictionOrder).length := by
    rw [List.length_insertionSort]
    exact positive
  rw [oldest]
  cases order : table.entries.entries.insertionSort evictionOrder with
  | nil =>
      rw [order] at sorted
      cases sorted
  | cons entry rest => exact ⟨entry, rfl⟩

theorem evict_room (bounded : table.Bounded) :
    table.evict.1.len < table.evict.1.capacity := by
  unfold evict
  by_cases full : table.capacity ≤ table.len
  · rcases oldest_isSome table full with ⟨entry, oldest⟩
    have one := len_removeAndClose table (oldest_open table entry oldest)
    simp only [full, if_true, oldest]
    change _ < table.capacity
    unfold Bounded at bounded
    omega
  · rw [if_neg full]
    exact Nat.lt_of_not_le full

theorem openNew_moves (bounded : table.Bounded) (obs : Observation)
    (absent : table.get obs.key = none) :
    Moves table ((table.openNew obs).2.1.map .close ++ [.observe obs]) (table.openNew obs).1 := by
  have still : table.evict.1.get obs.key = none := by
    have closes := evict_closes table
    rw [closes.kept obs.key, absent]
    intro record member own
    have present := (closes.reported record member).1
    rw [own, absent] at present
    cases present
  exact (evict_moves table).append (.single (.insert still (evict_room table bounded)))

/-- A call of `upsert` closes some flows and then records its packet. -/
theorem upsert_moves (bounded : table.Bounded) (obs : Observation) :
    Moves table ((table.upsert obs).2.1.map .close ++ [.observe obs]) (table.upsert obs).1 := by
  unfold upsert
  split
  · next flow present =>
      by_cases due : table.due flow obs.timestampUs = true
      · have closed : Step table _ _ := .close present
        have absent : (table.removeAndClose obs.key flow).1.get obs.key = none :=
          AList.lookup_erase obs.key table.entries
        simp only [due, if_true]
        exact .cons closed (openNew_moves _ (closed.bounded bounded) obs absent)
      · simp only [due, if_false, Bool.false_eq_true]
        exact .single (.update present (Bool.eq_false_of_not_eq_true due))
  · next absent => exact openNew_moves table bounded obs absent

end

end FlowTable

end PiAgents.Capture
