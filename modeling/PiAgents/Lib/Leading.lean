import Mathlib.Data.List.Basic
import Mathlib.Order.Lattice

/-! The first items of a list in descending order: which of them are within a limit. -/

namespace PiAgents.Leading

variable {α β : Type*} [LinearOrder β] {rank : α → β} {l : List α} {a : α} {n : Nat}

def Descending (rank : α → β) (l : List α) : Prop := l.Pairwise fun a b => rank b ≤ rank a

/-- The items that stand before this one or beside it. -/
def notBelow (rank : α → β) (l : List α) (a : α) : List α :=
  l.filter fun b => decide (rank a ≤ rank b)

theorem mem_take_of_few (descending : Descending rank l) (member : a ∈ l)
    (few : (notBelow rank l a).length ≤ n) : a ∈ l.take n := by
  have parts := List.take_append_drop n l
  by_contra absent
  rw [← parts] at member
  have later : a ∈ l.drop n := (List.mem_append.mp member).resolve_left absent
  have full : (l.take n).length = n := by
    have rest := List.length_pos_of_mem later
    rw [List.length_drop] at rest
    rw [List.length_take]
    omega
  have above : (l.take n).filter (fun b => decide (rank a ≤ rank b)) = l.take n := by
    apply List.filter_eq_self.mpr
    intro b front
    rw [Descending, ← parts] at descending
    exact decide_eq_true ((List.pairwise_append.mp descending).2.2 b front a later)
  have beside : 0 < ((l.drop n).filter fun b => decide (rank a ≤ rank b)).length := by
    apply List.length_pos_of_mem
    exact List.mem_filter.mpr ⟨later, decide_eq_true (le_refl _)⟩
  have counted : (notBelow rank l a).length =
      n + ((l.drop n).filter fun b => decide (rank a ≤ rank b)).length := by
    rw [notBelow, ← parts, List.filter_append, List.length_append, parts, above, full]
  omega

/-- An item with nothing of its rank behind it is not among the first when too many are not
below it. -/
theorem not_mem_take_of_many (last : ∀ b ∈ l.drop n, rank b < rank a ∨ a ∉ l.take n)
    (many : n < (notBelow rank l a).length) : a ∉ l.take n := by
  intro front
  have parts := List.take_append_drop n l
  have none : (l.drop n).filter (fun b => decide (rank a ≤ rank b)) = [] := by
    apply List.filter_eq_nil_iff.mpr
    intro b later
    have below := (last b later).resolve_right fun absent => absent front
    simpa using below
  have counted : (notBelow rank l a).length =
      ((l.take n).filter fun b => decide (rank a ≤ rank b)).length := by
    rw [notBelow, ← parts, List.filter_append, parts, none, List.append_nil]
  have within : ((l.take n).filter fun b => decide (rank a ≤ rank b)).length ≤ n := by
    calc
      _ ≤ (l.take n).length := List.length_filter_le _ _
      _ ≤ n := by
        rw [List.length_take]
        exact Nat.min_le_left _ _
  omega

theorem notBelow_perm {m : List α} (perm : l.Perm m) :
    (notBelow rank l a).length = (notBelow rank m a).length :=
  (perm.filter _).length_eq

end PiAgents.Leading
