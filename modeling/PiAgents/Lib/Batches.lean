import Mathlib

/-! Items grouped by key: those of a key fill its open batch, which is closed and started anew. No
item is lost, and every batch is a contiguous part of its key's items. -/

namespace PiAgents

structure Batches (κ α : Type*) where
  opened : κ → List α
  closed : List (κ × List α)

namespace Batches

variable {κ α : Type*} [DecidableEq κ]

def empty : Batches κ α := ⟨fun _ => [], []⟩

def add (batches : Batches κ α) (key : κ) (item : α) : Batches κ α :=
  { batches with opened := Function.update batches.opened key (batches.opened key ++ [item]) }

def close (batches : Batches κ α) (key : κ) : Batches κ α where
  opened := Function.update batches.opened key []
  closed := batches.closed ++ [(key, batches.opened key)]

def closedOf (batches : Batches κ α) (key : κ) : List (List α) :=
  (batches.closed.filter fun batch => batch.1 = key).map Prod.snd

/-- The items of a key, in the order in which they came. -/
def contents (batches : Batches κ α) (key : κ) : List α :=
  (batches.closedOf key).flatten ++ batches.opened key

variable (batches : Batches κ α)

theorem closedOf_close (key other : κ) :
    (batches.close key).closedOf other =
      batches.closedOf other ++ if key = other then [batches.opened key] else [] := by
  simp only [closedOf, close, List.filter_append, List.map_append]
  by_cases same : key = other
  · simp only [same, List.filter_singleton, decide_true, if_true, List.map_singleton, cond_true]
  · simp only [same, List.filter_singleton, decide_false, if_false, List.map_nil, cond_false]

theorem contents_close (key other : κ) :
    (batches.close key).contents other = batches.contents other := by
  rw [contents, contents, closedOf_close, List.flatten_append]
  by_cases same : key = other
  · subst same
    simp only [close, Function.update_self, if_true, List.flatten_singleton, List.append_nil]
  · simp only [close, Function.update_of_ne (Ne.symm same), same, if_false, List.flatten_nil,
      List.append_nil]

theorem contents_add (key other : κ) (item : α) :
    (batches.add key item).contents other =
      batches.contents other ++ if key = other then [item] else [] := by
  have closed : (batches.add key item).closedOf other = batches.closedOf other := rfl
  rw [contents, contents, closed, List.append_assoc]
  by_cases same : key = other
  · subst same
    simp only [add, Function.update_self, if_true]
  · simp only [add, Function.update_of_ne (Ne.symm same), same, if_false, List.append_nil]

theorem sum_contents (measure : α → Nat) (key : κ) :
    ((batches.contents key).map measure).sum =
      ((batches.closedOf key).map fun batch => (batch.map measure).sum).sum +
        ((batches.opened key).map measure).sum := by
  rw [contents, List.map_append, List.sum_append, List.map_flatten, List.sum_flatten,
    List.map_map]
  rfl

end Batches

end PiAgents
