import Mathlib.Data.Nat.Basic
import Mathlib.Data.List.Basic

/-! Iterators: a step that gives an item or ends, the items it gives from a state, and a bound on
their number by a measure of what remains. -/

namespace PiAgents.Iterators

section Items

variable {σ α : Type} {next : σ → Option α × σ}

/-- From the state the iterator gives these items and then ends. -/
inductive Yields (next : σ → Option α × σ) : σ → List α → Prop where
  | done {s s' : σ} (ends : next s = (none, s')) : Yields next s []
  | item {s s' : σ} {a : α} {items : List α} (gives : next s = (some a, s'))
      (later : Yields next s' items) : Yields next s (a :: items)

/-- When every good item uses up at least `unit` of what remains, and any other item is the last
one, the iterator ends, soon, and only its last item may be a bad one. -/
theorem exists_yields (remaining : σ → Nat) {unit : Nat} (positive : 0 < unit) {good : α → Prop}
    (step : ∀ s a s', next s = (some a, s') →
      (good a ∧ remaining s' + unit ≤ remaining s) ∨ (next s').1 = none) (s : σ) :
    ∃ items, Yields next s items ∧ items.length ≤ remaining s / unit + 1 ∧
      ∀ a ∈ items.dropLast, good a := by
  induction bound : remaining s using Nat.strongRecOn generalizing s with
  | ind n ih =>
      subst bound
      rcases given : next s with ⟨_ | a, s'⟩
      · exact ⟨[], .done given, by simp, by simp⟩
      · obtain ⟨isGood, less⟩ | ended := step s a s' given
        · obtain ⟨items, yields, few, goodItems⟩ := ih (remaining s') (by omega) s' rfl
          have fewer : remaining s' / unit + 1 ≤ remaining s / unit := by
            rw [← Nat.add_div_right _ positive]
            exact Nat.div_le_div_right less
          refine ⟨a :: items, .item given yields, ?_, ?_⟩
          · rw [List.length_cons]
            omega
          · cases items with
            | nil => simp
            | cons b rest =>
                rw [List.dropLast_cons_cons, List.forall_mem_cons]
                exact ⟨isGood, goodItems⟩
        · exact ⟨[a], .item given (.done (Prod.ext ended rfl)), by simp, by simp⟩

end Items

end PiAgents.Iterators
