import Mathlib
import PiAgents.Lib.Runs

/-! Rows that keep, for each key, an item with the latest stamp: a later or equal stamp replaces
the row, an earlier one does not. -/

namespace PiAgents.LatestWins

section Rows

variable {α κ τ : Type*} [DecidableEq κ] [LinearOrder τ] (key : α → κ) (stamp : α → τ)

/-- The rows with the row of the item's key replaced by the item. -/
def replace (rows : List α) (item : α) : List α :=
  rows.map fun row => if key row = key item then item else row

def put (rows : List α) (item : α) : List α :=
  match rows.find? fun row => key row = key item with
  | none => rows ++ [item]
  | some old => if stamp old ≤ stamp item then replace key rows item else rows

def store (items : List α) : List α := Runs.run (put key stamp) [] items

variable {key stamp} {rows items : List α} {item : α}

variable (key stamp) in
theorem put_cases (rows : List α) (item : α) :
    ((∀ row ∈ rows, key row ≠ key item) ∧ put key stamp rows item = rows ++ [item]) ∨
      (∃ old ∈ rows, key old = key item ∧ stamp old ≤ stamp item ∧
        put key stamp rows item = replace key rows item) ∨
      ∃ old ∈ rows, key old = key item ∧ stamp item < stamp old ∧
        put key stamp rows item = rows := by
  rw [put]
  cases found : rows.find? fun row => key row = key item with
  | none =>
      rw [List.find?_eq_none] at found
      exact .inl ⟨by simpa using found, rfl⟩
  | some old =>
      have held := List.mem_of_find?_eq_some found
      have same : key old = key item := by simpa using List.find?_some found
      dsimp only
      by_cases later : stamp old ≤ stamp item
      · rw [if_pos later]
        exact .inr (.inl ⟨old, held, same, later, rfl⟩)
      · rw [if_neg later]
        exact .inr (.inr ⟨old, held, same, lt_of_not_ge later, rfl⟩)

private theorem replace_keys (rows : List α) (item : α) :
    (replace key rows item).map key = rows.map key := by
  rw [replace, List.map_map]
  apply List.map_congr_left
  intro row _
  by_cases same : key row = key item
  · simp [same]
  · simp [same]

private theorem mem_replace {row : α} : row ∈ replace key rows item ↔
    (row = item ∧ ∃ old ∈ rows, key old = key item) ∨ (row ∈ rows ∧ key row ≠ key item) := by
  rw [replace, List.mem_map]
  constructor
  · rintro ⟨old, held, rfl⟩
    by_cases same : key old = key item
    · rw [if_pos same]
      exact .inl ⟨rfl, old, held, same⟩
    · rw [if_neg same]
      exact .inr ⟨held, same⟩
  · rintro (⟨rfl, old, held, same⟩ | ⟨held, other⟩)
    · exact ⟨old, held, if_pos same⟩
    · exact ⟨row, held, if_neg other⟩

variable (key stamp) in
/-- The rows keep, of the items, one for each key, with no later item of that key. -/
structure Keeps (items rows : List α) : Prop where
  distinct : (rows.map key).Nodup
  taken : ∀ row ∈ rows, row ∈ items
  latest : ∀ row ∈ rows, ∀ item ∈ items, key item = key row → stamp item ≤ stamp row
  covers : ∀ item ∈ items, ∃ row ∈ rows, key row = key item

omit [DecidableEq κ] in
theorem Keeps.empty : Keeps key stamp [] [] :=
  ⟨List.nodup_nil, by simp, by simp, by simp⟩

omit [DecidableEq κ] in
theorem Keeps.unique (keeps : Keeps key stamp items rows) {row other : α} (held : row ∈ rows)
    (also : other ∈ rows) (same : key row = key other) : row = other :=
  List.inj_on_of_nodup_map keeps.distinct held also same

omit [DecidableEq κ] in
theorem Keeps.append (keeps : Keeps key stamp items rows)
    (new : ∀ row ∈ rows, key row ≠ key item) :
    Keeps key stamp (items ++ [item]) (rows ++ [item]) := by
  refine ⟨?_, ?_, ?_, ?_⟩
  · rw [List.map_append, List.map_singleton]
    apply keeps.distinct.append (List.nodup_singleton _)
    rw [List.disjoint_singleton, List.mem_map]
    rintro ⟨row, held, sameKey⟩
    exact new row held sameKey
  · intro row member
    rw [List.mem_append] at member ⊢
    exact member.imp (keeps.taken row) id
  · intro row member other among sameKey
    rw [List.mem_append, List.mem_singleton] at member among
    obtain held | rfl := member
    · obtain old | rfl := among
      · exact keeps.latest row held other old sameKey
      · exact absurd sameKey.symm (new row held)
    · obtain old | rfl := among
      · obtain ⟨kept, held, keptKey⟩ := keeps.covers other old
        exact absurd (keptKey.trans sameKey) (new kept held)
      · exact le_rfl
  · intro other among
    rw [List.mem_append, List.mem_singleton] at among
    obtain old | rfl := among
    · obtain ⟨row, held, sameKey⟩ := keeps.covers other old
      exact ⟨row, List.mem_append_left _ held, sameKey⟩
    · exact ⟨other, List.mem_append_right _ (List.mem_singleton_self other), rfl⟩

theorem Keeps.replace {old : α} (keeps : Keeps key stamp items rows) (held : old ∈ rows)
    (sameKey : key old = key item) (later : stamp old ≤ stamp item) :
    Keeps key stamp (items ++ [item]) (replace key rows item) := by
  refine ⟨?_, ?_, ?_, ?_⟩
  · rw [replace_keys]
    exact keeps.distinct
  · intro row member
    rw [List.mem_append, List.mem_singleton]
    obtain ⟨isItem, _⟩ | ⟨kept, _⟩ := mem_replace.mp member
    · exact .inr isItem
    · exact .inl (keeps.taken row kept)
  · intro row member other among otherKey
    rw [List.mem_append, List.mem_singleton] at among
    obtain ⟨rfl, _⟩ | ⟨kept, differs⟩ := mem_replace.mp member
    · obtain before | rfl := among
      · exact le_trans (keeps.latest old held other before (otherKey.trans sameKey.symm)) later
      · exact le_rfl
    · obtain before | rfl := among
      · exact keeps.latest row kept other before otherKey
      · exact absurd otherKey.symm differs
  · intro other among
    rw [List.mem_append, List.mem_singleton] at among
    by_cases otherKey : key other = key item
    · exact ⟨item, mem_replace.mpr (.inl ⟨rfl, old, held, sameKey⟩), otherKey.symm⟩
    · obtain before | rfl := among
      · obtain ⟨row, kept, rowKey⟩ := keeps.covers other before
        exact ⟨row, mem_replace.mpr (.inr ⟨kept, fun same => otherKey (rowKey.symm.trans same)⟩),
          rowKey⟩
      · exact absurd rfl otherKey

omit [DecidableEq κ] in
theorem Keeps.ignore {old : α} (keeps : Keeps key stamp items rows) (held : old ∈ rows)
    (sameKey : key old = key item) (earlier : stamp item ≤ stamp old) :
    Keeps key stamp (items ++ [item]) rows := by
  refine ⟨keeps.distinct, ?_, ?_, ?_⟩
  · exact fun row member => List.mem_append_left _ (keeps.taken row member)
  · intro row member other among otherKey
    rw [List.mem_append, List.mem_singleton] at among
    obtain before | rfl := among
    · exact keeps.latest row member other before otherKey
    · rw [← keeps.unique held member (sameKey.trans otherKey)]
      exact earlier
  · intro other among
    rw [List.mem_append, List.mem_singleton] at among
    obtain before | rfl := among
    · exact keeps.covers other before
    · exact ⟨old, held, sameKey⟩

theorem Keeps.put (keeps : Keeps key stamp items rows) (item : α) :
    Keeps key stamp (items ++ [item]) (put key stamp rows item) := by
  obtain ⟨new, same⟩ | ⟨old, held, sameKey, later, same⟩ | ⟨old, held, sameKey, earlier, same⟩ :=
    put_cases key stamp rows item
  · rw [same]
    exact keeps.append new
  · rw [same]
    exact keeps.replace held sameKey later
  · rw [same]
    exact keeps.ignore held sameKey earlier.le

variable (key stamp) in
theorem keeps_store (items : List α) : Keeps key stamp items (store key stamp items) := by
  induction items using List.reverseRecOn with
  | nil => exact .empty
  | append_singleton items item ih =>
      rw [store, Runs.run_append]
      exact ih.put item

theorem mem_put (yields : ∀ row ∈ rows, key row = key item → stamp row ≤ stamp item) :
    item ∈ put key stamp rows item := by
  obtain ⟨_, same⟩ | ⟨old, held, sameKey, _, same⟩ | ⟨old, held, sameKey, earlier, same⟩ :=
    put_cases key stamp rows item
  · rw [same]
    exact List.mem_append_right _ (List.mem_singleton_self item)
  · rw [same]
    exact mem_replace.mpr (.inl ⟨rfl, old, held, sameKey⟩)
  · exact absurd (yields old held sameKey) (not_le_of_gt earlier)

/-- An item that no other of its key is later than is kept when it comes last. -/
theorem mem_store_last
    (latest : ∀ other ∈ items, key other = key item → stamp other ≤ stamp item) :
    item ∈ store key stamp (items ++ [item]) := by
  rw [store, Runs.run_append]
  apply mem_put
  intro row held
  exact latest row ((keeps_store key stamp items).taken row held)

end Rows

end PiAgents.LatestWins
