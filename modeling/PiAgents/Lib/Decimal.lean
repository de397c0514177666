import Mathlib

/-! Decimal numerals in texts: they contain no separator, so a text built from a part, a
separator and a numeral determines both. -/

namespace PiAgents.Decimal

theorem nat_digits (n : Nat) : ∀ c ∈ (toString n).toList, c.isDigit := by
  intro c member
  rw [Nat.toString_eq_repr, Nat.toList_repr] at member
  exact Nat.isDigit_of_mem_toDigits (by decide) (by decide) member

theorem int_digits (i : Int) : ∀ c ∈ (toString i).toList, c.isDigit ∨ c = '-' := by
  intro c member
  cases i with
  | ofNat n => exact Or.inl (nat_digits n c member)
  | negSucc n =>
      have shape : toString (Int.negSucc n) = "-" ++ toString (n + 1) := rfl
      rw [shape, String.toList_append, List.mem_append] at member
      rcases member with sign | digits
      · simp at sign
        exact Or.inr sign
      · exact Or.inl (nat_digits (n + 1) c digits)

theorem colon_free (n : Nat) : ':' ∉ (toString n).toList :=
  fun member => absurd (nat_digits n ':' member) (by decide)

theorem bar_free (i : Int) : '|' ∉ (toString i).toList :=
  fun member => absurd (int_digits i '|' member) (by decide)

theorem toString_nat_injective : Function.Injective (toString : Nat → String) :=
  fun _ _ same => Nat.repr_injective same

theorem toString_int64_injective : Function.Injective (toString : Int64 → String) :=
  fun _ _ same => Int64.toInt_inj.mp (Int.repr_injective same)

theorem split_last {α : Type*} {separator : α} {first second tail other : List α}
    (free : separator ∉ tail) (otherFree : separator ∉ other)
    (same : first ++ separator :: tail = second ++ separator :: other) :
    first = second ∧ tail = other := by
  rcases List.append_eq_append_iff.mp same with ⟨middle, longer, rest⟩ | ⟨middle, longer, rest⟩
  · cases middle with
    | nil =>
        rw [List.nil_append, List.cons.injEq] at rest
        rw [List.append_nil] at longer
        exact ⟨longer.symm, rest.2⟩
    | cons head middle =>
        rw [List.cons_append, List.cons.injEq] at rest
        exact absurd (rest.2 ▸ List.mem_append_right middle (List.mem_cons_self ..)) free
  · cases middle with
    | nil =>
        rw [List.nil_append, List.cons.injEq] at rest
        rw [List.append_nil] at longer
        exact ⟨longer, rest.2.symm⟩
    | cons head middle =>
        rw [List.cons_append, List.cons.injEq] at rest
        exact absurd (rest.2 ▸ List.mem_append_right middle (List.mem_cons_self ..)) otherFree

theorem append_separator_injective {separator : Char} {first second numeral other : String}
    (free : separator ∉ numeral.toList) (otherFree : separator ∉ other.toList)
    (same : first ++ String.singleton separator ++ numeral =
      second ++ String.singleton separator ++ other) : first = second ∧ numeral = other := by
  have chars := congrArg String.toList same
  simp only [String.toList_append, String.toList_singleton, List.append_assoc,
    List.singleton_append] at chars
  obtain ⟨before, after⟩ := split_last free otherFree chars
  exact ⟨String.toList_injective before, String.toList_injective after⟩

end PiAgents.Decimal
