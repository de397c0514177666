import Mathlib

/-! Doubles through the logical model of `Float`: a finite double is a mantissa and an exponent
in canonical form, a product is rounded once, and a factor below one makes any threshold smaller
than the integers that reach it. -/

namespace PiAgents.Binary64

open Float.Model Float.Model.UnpackedFloat

/-- A finite double as the format stores it. -/
structure Canonical (m : Nat) (e : Int) : Prop where
  positive : 0 < m
  fits : m < 2 ^ 53
  low : -1074 ≤ e
  high : e ≤ 971
  tight : 2 ^ 52 ≤ m ∨ e = -1074

/-- `(m₁, e₁)` is below `(m₂, e₂)`, for canonical pairs. -/
def Below (m₁ : Nat) (e₁ : Int) (m₂ : Nat) (e₂ : Int) : Prop := e₁ < e₂ ∨ (e₁ = e₂ ∧ m₁ < m₂)

theorem exponent_bias :
    (Format.binary64.exponentBias + Format.binary64.mantissaBitsWithoutImplicit : Int) = 1075 := by
  decide

theorem implicit_bit (mantissa : BitVec 52) :
    (1#1 ++ mantissa).toNat = 2 ^ 52 + mantissa.toNat := by
  rw [BitVec.toNat_append]
  exact (Nat.two_pow_add_eq_or_of_lt mantissa.isLt 1).symm

theorem unpack_canonical (f : Float.Model) (s : Sign) (m : Nat) (e : Int) (hp : 0 < m)
    (unpacked : f.unpack = .finite s m e hp) : Canonical m e := by
  have mantissaBound := (@unpackMantissa Format.binary64 f.toBits.toBitVec).isLt
  have exponentBound := (@unpackExponent Format.binary64 f.toBits.toBitVec).isLt
  change _ < 2 ^ 52 at mantissaBound
  change _ < 2 ^ 11 at exponentBound
  simp only [Float.Model.unpack, UnpackedFloat.unpack] at unpacked
  split at unpacked
  · split at unpacked <;> cases unpacked
  · next notMax =>
    have below : (@unpackExponent Format.binary64 f.toBits.toBitVec).toNat ≠ 2047 := by
      intro max
      exact notMax (BitVec.eq_of_toNat_eq max)
    split at unpacked
    · split at unpacked
      · cases unpacked
      · next zero nonzero =>
        rw [zero] at unpacked
        cases unpacked
        refine ⟨hp, by omega, ?_, ?_, Or.inr ?_⟩ <;> decide
    · next nonzero =>
      have above : (@unpackExponent Format.binary64 f.toBits.toBitVec).toNat ≠ 0 := by
        intro zero
        exact nonzero (BitVec.eq_of_toNat_eq zero)
      rw [UnpackedFloat.finite.injEq] at unpacked
      obtain ⟨-, same, exponent⟩ := unpacked
      rw [implicit_bit] at same
      rw [exponent_bias] at exponent
      refine ⟨hp, ?_, ?_, ?_, Or.inl ?_⟩ <;> omega

private theorem sign_packed (sign : Sign) (exponent : BitVec 11) (mantissa : BitVec 52) :
    Sign.ofBitVec (@unpackSign Format.binary64
      (packComponents Format.binary64 sign exponent mantissa)) = sign := by
  have bit : @unpackSign Format.binary64
      (packComponents Format.binary64 sign exponent mantissa) = sign.toBitVec := by
    ext i hi
    have first : i = 0 := by omega
    subst first
    simp [unpackSign, packComponents]
    rw [BitVec.getLsbD_append, BitVec.getLsbD_append]
    simp
  rw [bit]
  cases sign <;> rfl

theorem unpack_pack (s : Sign) (m : Nat) (e : Int) (canonical : Canonical m e) (hp : 0 < m) :
    (Float.Model.pack (.finite s m e hp)).unpack = .finite s m e hp := by
  obtain ⟨-, fits, low, high, tight⟩ := canonical
  have biased : (e + Format.binary64.exponentBias +
      Format.binary64.mantissaBitsWithoutImplicit).toNat = (e + 1075).toNat := by
    rw [add_assoc, exponent_bias]
  have finiteExponent : ¬ 2 ^ Format.binary64.exponentBits ≤ (e + 1075).toNat + 1 := by
    change ¬ 2 ^ 11 ≤ _
    omega
  have opened : (Float.Model.pack (.finite s m e hp)).unpack =
      UnpackedFloat.unpack Format.binary64
        (UnpackedFloat.pack Format.binary64 (.finite s m e hp)) := rfl
  rw [opened, UnpackedFloat.pack]
  simp only [biased, finiteExponent, if_false]
  by_cases normal : 2 ^ 52 ≤ m
  · have bits : m.log2 + 1 = Format.binary64.mantissaBits := by
      rw [(Nat.log2_eq_iff (by omega)).mpr ⟨normal, fits⟩]; rfl
    have exponentNat : (BitVec.ofNat 11 (e + 1075).toNat).toNat = (e + 1075).toNat := by
      rw [BitVec.toNat_ofNat]; omega
    have notMax : BitVec.ofNat 11 (e + 1075).toNat ≠ -1#11 := by
      intro max
      have := congrArg BitVec.toNat max
      rw [exponentNat] at this
      change _ = 2047 at this
      omega
    have nonzero : BitVec.ofNat 11 (e + 1075).toNat ≠ 0#11 := by
      intro max
      have := congrArg BitVec.toNat max
      rw [exponentNat] at this
      change _ = 0 at this
      omega
    rw [if_pos bits, UnpackedFloat.unpack]
    simp only [unpackExponent_packComponents, unpackMantissa_packComponents, sign_packed]
    simp only [notMax, nonzero, if_false, UnpackedFloat.finite.injEq]
    refine ⟨trivial, ?_, ?_⟩
    · rw [implicit_bit, BitVec.toNat_ofNat]
      omega
    · rw [exponentNat]
      rw [exponent_bias]
      omega
  · have least : e = -1074 := tight.resolve_left normal
    have bits : ¬ m.log2 + 1 = Format.binary64.mantissaBits := by
      intro full
      have large := Nat.log2_self_le hp.ne'
      have width : m.log2 = 52 := Nat.add_right_cancel full
      rw [width] at large
      exact normal large
    have mantissaNat : (BitVec.ofNat 52 m).toNat = m := by
      rw [BitVec.toNat_ofNat]
      omega
    have nonzero : BitVec.ofNat 52 m ≠ 0#52 := by
      intro zero
      have := congrArg BitVec.toNat zero
      rw [mantissaNat] at this
      change m = 0 at this
      omega
    rw [if_neg bits, UnpackedFloat.unpack]
    simp only [unpackExponent_packComponents, unpackMantissa_packComponents, sign_packed]
    have notMax : ¬ (0#11 = -1#11) := by decide
    simp only [notMax, nonzero, if_false, if_true, dite_false, UnpackedFloat.finite.injEq]
    refine ⟨trivial, mantissaNat, ?_⟩
    rw [least]
    decide

theorem unpack_pack_zero (sign : Sign) : (Float.Model.pack (.zero sign)).unpack = .zero sign := by
  cases sign
  · rfl
  · rfl

/-! Rounding an exact mantissa. -/

def exactMantissa (m : Nat) : ExtendedMantissa := ⟨m, false, false⟩

private theorem shift_mantissa (m k : Nat) : (exactMantissa m >>> k).mantissa = m / 2 ^ k := by
  induction k with
  | zero => exact (Nat.div_one m).symm
  | succ k ih =>
      calc (exactMantissa m >>> (k + 1)).mantissa
        _ = (exactMantissa m >>> k).mantissa / 2 := rfl
        _ = m / 2 ^ k / 2 := by rw [ih]
        _ = m / 2 ^ (k + 1) := by rw [Nat.div_div_eq_div_mul, Nat.pow_succ]

private theorem rounded_ge (em : ExtendedMantissa) : em.mantissa ≤ em.roundedMantissa := by
  obtain ⟨m, round, sticky⟩ := em
  cases round <;> cases sticky <;>
    simp [ExtendedMantissa.roundedMantissa, ExtendedMantissa.accuracy, Accuracy.roundToNearestEven]

private theorem shift_one_rounded_le (em : ExtendedMantissa) :
    em.shiftRightOne.roundedMantissa ≤ (em.mantissa + 1) / 2 := by
  obtain ⟨m, round, sticky⟩ := em
  unfold ExtendedMantissa.roundedMantissa ExtendedMantissa.shiftRightOne
  rcases Nat.mod_two_eq_zero_or_one m with even | odd
  · have noRound : (m % 2 != 0) = false := by rw [even]; rfl
    simp only [noRound]
    cases round <;> cases sticky <;>
      simp [ExtendedMantissa.accuracy, Accuracy.roundToNearestEven] <;> omega
  · have rounds : (m % 2 != 0) = true := by rw [odd]; rfl
    simp only [rounds]
    cases round <;> cases sticky <;>
      simp [ExtendedMantissa.accuracy, Accuracy.roundToNearestEven] <;> omega

private theorem shift_rounded_le (m k : Nat) :
    (exactMantissa m >>> (k + 1)).roundedMantissa ≤ (m / 2 ^ k + 1) / 2 := by
  rw [← shift_mantissa]
  exact shift_one_rounded_le (exactMantissa m >>> k)

private theorem shift_zero_rounded (m : Nat) : (exactMantissa m >>> 0).roundedMantissa = m := rfl

/-- The exponent that a mantissa is shifted to. -/
def target (m : Nat) (e : Int) : Int := max (m.log2 + e - 52) (-1074)

private theorem target_eq (m : Nat) (e : Int) :
    Format.binary64.targetExponent (totalExponent m e) = target m e := by
  have bits : (Format.binary64.mantissaBits : Int) = 53 := rfl
  have least : Format.binary64.minExponent = -1074 := by decide
  rw [Format.targetExponent, totalExponent, bits, least, target]
  congr 1
  ring

private theorem shift_to_target (m : Nat) (e : Int) :
    shiftToTargetExponent Format.binary64 m e .exact =
      (exactMantissa m >>> (target m e - e).toNat, e + (target m e - e).toNat) := by
  rw [← target_eq]
  rfl

private theorem shift_back (m : Nat) (e : Int) (fits : m < 2 ^ 53) (low : -1074 ≤ e) :
    shiftToTargetExponent Format.binary64 m e .exact = (exactMantissa m, e) := by
  have bits : m.log2 ≤ 52 := by
    by_cases zero : m = 0
    · rw [zero]; decide
    · exact Nat.le_of_lt_succ ((Nat.log2_lt zero).mpr fits)
  have none : (target m e - e).toNat = 0 := by
    unfold target
    omega
  rw [shift_to_target, none]
  rw [Int.natCast_zero, Int.add_zero]
  rfl

private theorem shift_carry (e : Int) (low : -1074 ≤ e) :
    shiftToTargetExponent Format.binary64 (2 ^ 53) e .exact = (exactMantissa (2 ^ 52), e + 1) := by
  have one : (target (2 ^ 53) e - e).toNat = 1 := by
    rw [target, Nat.log2_two_pow]
    omega
  rw [shift_to_target, one]
  rfl

/-- Rounding an exact value: one shift to the target exponent, and one more on a carry. -/
theorem round_exact (sign : Sign) (m : Nat) (e : Int) (widened : e ≤ target m e)
    (bound : (exactMantissa m >>> (target m e - e).toNat).roundedMantissa ≤ 2 ^ 53) :
    let r := (exactMantissa m >>> (target m e - e).toNat).roundedMantissa
    roundWithAccuracy Format.binary64 sign m e .exact =
      if zero : r = 0 then .zero sign
      else if r < 2 ^ 53 then .finite sign r (target m e) (Nat.pos_of_ne_zero zero)
      else .finite sign (2 ^ 52) (target m e + 1) (by decide) := by
  intro r
  have low : -1074 ≤ target m e := le_max_right _ _
  have reached : e + (target m e - e).toNat = target m e := by omega
  rw [roundWithAccuracy, shift_to_target, reached]
  simp only
  by_cases small : r < 2 ^ 53
  · rw [shift_back _ _ small low]
    simp only [small, if_true]
    rfl
  · have carry : (exactMantissa m >>> (target m e - e).toNat).roundedMantissa = 2 ^ 53 :=
      Nat.le_antisymm bound (Nat.le_of_not_lt small)
    have nonzero : ¬ r = 0 := by omega
    rw [carry, shift_carry _ low]
    simp only [nonzero, small, dite_false, if_false]
    rfl

/-! Integers, and the order. -/

theorem round_integer (sign : Sign) (n : Nat) (positive : 0 < n) (bits : n.log2 ≤ 52) :
    ∃ m e, ∃ hp : 0 < m, UnpackedFloat.round Format.binary64 sign n 0 = .finite sign m e hp ∧
      Canonical m e ∧ 2 ^ 52 ≤ m ∧ -52 ≤ e := by
  have exponent : target n 0 = -((52 - n.log2 : Nat) : Int) := by
    unfold target
    omega
  have log := Nat.log2_self_le positive.ne'
  have below := Nat.lt_log2_self (n := n)
  have wide : 2 ^ 52 ≤ n * 2 ^ (52 - n.log2) := by
    calc 2 ^ 52
      _ = 2 ^ n.log2 * 2 ^ (52 - n.log2) := by rw [← Nat.pow_add]; congr 1; omega
      _ ≤ n * 2 ^ (52 - n.log2) := Nat.mul_le_mul_right _ log
  have fits : n * 2 ^ (52 - n.log2) < 2 ^ 53 := by
    calc n * 2 ^ (52 - n.log2)
      _ < 2 ^ (n.log2 + 1) * 2 ^ (52 - n.log2) :=
          Nat.mul_lt_mul_of_pos_right below (Nat.two_pow_pos _)
      _ = 2 ^ 53 := by rw [← Nat.pow_add]; congr 1; omega
  have scaled : (n * 2 ^ (52 - n.log2)).log2 = 52 :=
    (Nat.log2_eq_iff (by omega)).mpr ⟨wide, fits⟩
  have stays : target (n * 2 ^ (52 - n.log2)) (-((52 - n.log2 : Nat) : Int)) =
      -((52 - n.log2 : Nat) : Int) := by
    rw [target, scaled]
    omega
  have unshifted : (target (n * 2 ^ (52 - n.log2)) (-((52 - n.log2 : Nat) : Int)) -
      -((52 - n.log2 : Nat) : Int)).toNat = 0 := by
    rw [stays, Int.sub_self]
    rfl
  have rounded := round_exact sign (n * 2 ^ (52 - n.log2)) (-((52 - n.log2 : Nat) : Int))
    (le_of_eq stays.symm) (by rw [unshifted, shift_zero_rounded]; exact fits.le)
  rw [unshifted, shift_zero_rounded] at rounded
  have nonzero : ¬ n * 2 ^ (52 - n.log2) = 0 := by omega
  simp only [nonzero, dite_false, fits, if_true, stays] at rounded
  refine ⟨n * 2 ^ (52 - n.log2), -((52 - n.log2 : Nat) : Int), by omega, ?_, ?_, wide, by omega⟩
  · rw [← rounded, UnpackedFloat.round, target_eq, exponent, decreaseExponent, Nat.shiftLeft_eq]
    have amount : (0 - -((52 - n.log2 : Nat) : Int)).toNat = 52 - n.log2 := by omega
    rw [amount, Int.zero_sub]
  · exact ⟨by omega, fits, by omega, by omega, Or.inl wide⟩

/-- The double of an `int`. -/
def ofInt32 (n : Int32) : Float := .ofModel (.ofInt32 n)

theorem ofInt32_unpack (n : Int32) :
    (n.toInt ≤ 0 ∧ ((ofInt32 n).toModel.unpack = .zero .positive ∨
        ∃ m e hp, (ofInt32 n).toModel.unpack = .finite .negative m e hp)) ∨
      ∃ m e hp, (ofInt32 n).toModel.unpack = .finite .positive m e hp ∧ Canonical m e ∧
        2 ^ 52 ≤ m ∧ -52 ≤ e := by
  have high := n.toInt_lt
  have low := n.le_toInt
  have opened : (ofInt32 n).toModel.unpack = (Float.Model.pack
      (UnpackedFloat.normalize Format.binary64 n.toInt 0 .positive)).unpack := rfl
  rw [opened, UnpackedFloat.normalize]
  have log : ∀ k : Nat, k ≤ 2 ^ 31 → k.log2 ≤ 52 := by
    intro k bound
    by_cases zero : k = 0
    · rw [zero]; decide
    · exact Nat.le_of_lt_succ ((Nat.log2_lt zero).mpr (by omega))
  rcases Int.lt_trichotomy n.toInt 0 with negative | zero | positive
  · have order : compare n.toInt 0 = .lt := compare_lt_iff_lt.mpr negative
    obtain ⟨m, e, hp, rounded, canonical, -⟩ := round_integer .negative (-n.toInt).toNat (by omega)
      (log _ (by omega))
    left
    refine ⟨negative.le, Or.inr ⟨m, e, hp, ?_⟩⟩
    rw [order]
    simp only [rounded]
    exact unpack_pack _ _ _ canonical hp
  · have order : compare n.toInt 0 = .eq := compare_eq_iff_eq.mpr zero
    left
    refine ⟨zero.le, Or.inl ?_⟩
    rw [order]
    exact unpack_pack_zero .positive
  · have order : compare n.toInt 0 = .gt := compare_gt_iff_gt.mpr positive
    obtain ⟨m, e, hp, rounded, canonical, wide, small⟩ := round_integer .positive n.toInt.toNat
      (by omega) (log _ (by omega))
    right
    refine ⟨m, e, hp, ?_, canonical, wide, small⟩
    rw [order]
    simp only [rounded]
    exact unpack_pack _ _ _ canonical hp

theorem compare_positive {m₁ m₂ : Nat} {e₁ e₂ : Int} (h₁ : 0 < m₁) (h₂ : 0 < m₂) :
    (UnpackedFloat.finite .positive m₁ e₁ h₁).compare (.finite .positive m₂ e₂ h₂) =
      some ((compare e₁ e₂).then (compare m₁ m₂)) := rfl

theorem then_lt_iff {m₁ m₂ : Nat} {e₁ e₂ : Int} :
    (compare e₁ e₂).then (compare m₁ m₂) = .lt ↔ Below m₁ e₁ m₂ e₂ := by
  rw [Ordering.then_eq_lt, compare_lt_iff_lt, compare_eq_iff_eq, compare_lt_iff_lt]
  rfl

theorem then_le_iff {m₁ m₂ : Nat} {e₁ e₂ : Int} :
    ((compare e₁ e₂).then (compare m₁ m₂)).isLE = true ↔ Below m₁ e₁ (m₂ + 1) e₂ := by
  rw [Ordering.isLE_iff_eq_lt_or_eq_eq, then_lt_iff, Ordering.then_eq_eq, compare_eq_iff_eq,
    compare_eq_iff_eq]
  unfold Below
  omega

theorem lt_iff_compare (a b : Float) :
    a < b ↔ a.toModel.unpack.compare b.toModel.unpack = some .lt := by
  show (decide (a.toModel < b.toModel)) = true ↔ _
  rw [decide_eq_true_eq]
  show (a.toModel.unpack.lt b.toModel.unpack) = true ↔ _
  rw [UnpackedFloat.lt, beq_iff_eq]

theorem le_iff_compare (a b : Float) :
    a ≤ b ↔ ∃ order, a.toModel.unpack.compare b.toModel.unpack = some order ∧ order.isLE = true := by
  show (decide (a.toModel ≤ b.toModel)) = true ↔ _
  rw [decide_eq_true_eq]
  show (a.toModel.unpack.le b.toModel.unpack) = true ↔ _
  rw [UnpackedFloat.le, Option.any_eq_true]

theorem zero_unpack : (0 : Float).toModel.unpack = .zero .positive := rfl
theorem one_unpack : (1 : Float).toModel.unpack = .finite .positive (2 ^ 52) (-52) (by decide) := rfl

theorem not_le_of_positive {m₁ : Nat} {e₁ : Int} (h₁ : 0 < m₁) (value : UnpackedFloat)
    (nonpositive : value = .zero .positive ∨ ∃ m e hp, value = .finite .negative m e hp) :
    (UnpackedFloat.finite .positive m₁ e₁ h₁).compare value = some .gt := by
  rcases nonpositive with rfl | ⟨m, e, hp, rfl⟩
  · rfl
  · rfl

/-! Products. -/

section

variable {mf mt mv : Nat} {ef et ev : Int} (factor : Canonical mf ef) (threshold : Canonical mt et)
  (value : Canonical mv ev)

include factor in
private theorem product_le : mf * mt ≤ (2 ^ 53 - 1) * mt :=
  Nat.mul_le_mul_right mt (Nat.le_sub_one_of_lt factor.fits)

include factor threshold in
private theorem product_pos : mf * mt ≠ 0 := (Nat.mul_pos factor.positive threshold.positive).ne'

include factor threshold in
private theorem product_log2_le : (mf * mt).log2 ≤ 53 + mt.log2 := by
  apply Nat.le_of_lt_succ
  apply (Nat.log2_lt (product_pos factor threshold)).mpr
  calc mf * mt
    _ < 2 ^ 53 * 2 ^ (mt.log2 + 1) :=
        Nat.mul_lt_mul'' factor.fits (Nat.lt_log2_self)
    _ = 2 ^ (53 + mt.log2 + 1) := by rw [← Nat.pow_add]; rfl

include factor threshold in
private theorem product_widened : ef + et ≤ target (mf * mt) (ef + et) := by
  by_cases normal : 2 ^ 52 ≤ mf ∨ 2 ^ 52 ≤ mt
  · have large : 2 ^ 52 ≤ mf * mt := by
      rcases normal with wide | wide
      · exact wide.trans (Nat.le_mul_of_pos_right mf threshold.positive)
      · exact wide.trans (Nat.le_mul_of_pos_left mt factor.positive)
    have bits := (Nat.le_log2 (product_pos factor threshold)).mpr large
    unfold target
    omega
  · push Not at normal
    have small := factor.tight.resolve_left (Nat.not_le.mpr normal.1)
    have smallToo := threshold.tight.resolve_left (Nat.not_le.mpr normal.2)
    unfold target
    omega

/-- The mantissa that the product is rounded to. -/
def productMantissa (mf mt : Nat) (ef et : Int) : Nat :=
  (exactMantissa (mf * mt) >>> (target (mf * mt) (ef + et) - (ef + et)).toNat).roundedMantissa

private theorem shift_rounded_fits (m k : Nat) (bits : m < 2 ^ (53 + k)) :
    (exactMantissa m >>> k).roundedMantissa ≤ 2 ^ 53 := by
  cases k with
  | zero => exact Nat.le_of_lt bits
  | succ k =>
      have floor : m / 2 ^ k < 2 ^ 54 := by
        apply Nat.div_lt_of_lt_mul
        calc m
          _ < 2 ^ (53 + (k + 1)) := bits
          _ = 2 ^ k * 2 ^ 54 := by rw [← Nat.pow_add]; congr 1; omega
      have rounded := shift_rounded_le m k
      omega

include factor threshold in
private theorem product_mantissa_fits : productMantissa mf mt ef et ≤ 2 ^ 53 := by
  apply shift_rounded_fits
  have bits := Nat.lt_log2_self (n := mf * mt)
  apply bits.trans_le
  apply Nat.pow_le_pow_right (by decide)
  have widened := product_widened factor threshold
  have reached : (mf * mt).log2 + (ef + et) - 52 ≤ target (mf * mt) (ef + et) := le_max_left _ _
  omega

include factor threshold in
private theorem product_mantissa_tight :
    2 ^ 52 ≤ productMantissa mf mt ef et ∨ target (mf * mt) (ef + et) = -1074 := by
  by_cases least : target (mf * mt) (ef + et) = -1074
  · exact Or.inr least
  · left
    have widened := product_widened factor threshold
    have log := Nat.log2_self_le (product_pos factor threshold)
    have width : (mf * mt).log2 = 52 + (target (mf * mt) (ef + et) - (ef + et)).toNat := by
      unfold target at least widened ⊢
      omega
    have floor := rounded_ge (exactMantissa (mf * mt) >>>
      (target (mf * mt) (ef + et) - (ef + et)).toNat)
    rw [shift_mantissa] at floor
    apply le_trans _ floor
    apply (Nat.le_div_iff_mul_le (Nat.two_pow_pos _)).mpr
    rw [← Nat.pow_add, ← width]
    exact log

include factor threshold value in
/-- A factor of exponent at most -53, that is below one, makes a threshold smaller than every
integer it does not exceed. -/
theorem product_below (small : ef ≤ -53) (integer : -52 ≤ ev)
    (normal : 2 ^ 52 ≤ mv) (order : Below mt et (mv + 1) ev) :
    target (mf * mt) (ef + et) ≤ ev ∧
      (target (mf * mt) (ef + et) = ev → productMantissa mf mt ef et < mv) ∧
      (target (mf * mt) (ef + et) + 1 = ev → productMantissa mf mt ef et = 2 ^ 53 →
        2 ^ 52 < mv) := by
  have log := product_log2_le factor threshold
  have upper : mf * mt ≤ (2 ^ 53 - 1) * mt := product_le factor
  have width : mt.log2 ≤ 52 :=
    Nat.le_of_lt_succ ((Nat.log2_lt threshold.positive.ne').mpr threshold.fits)
  have least := Nat.log2_self_le (product_pos factor threshold)
  have fits := threshold.fits
  unfold Below at order
  have exponent : target (mf * mt) (ef + et) ≤ ev := by
    unfold target
    omega
  refine ⟨exponent, ?_, ?_⟩
  · intro same
    have parts : ef = -53 ∧ et = ev ∧ (mf * mt).log2 = 105 := by
      unfold target at same
      omega
    obtain ⟨rfl, rfl, bits⟩ := parts
    have shift : (target (mf * mt) (-53 + et) - (-53 + et)).toNat = 52 + 1 := by omega
    have rounded := shift_rounded_le (mf * mt) 52
    rw [bits] at least
    have floor : mf * mt / 2 ^ 52 < 2 * mt - 1 := by
      apply Nat.div_lt_of_lt_mul
      omega
    rw [productMantissa, shift]
    omega
  · intro next carry
    by_contra narrow
    have mantissa : mv = 2 ^ 52 := by omega
    rw [productMantissa] at carry
    have cases : (et = ev ∧ mt ≤ 2 ^ 52 ∧ (ef = -53 ∨ ef = -54)) ∨ (et = ev - 1 ∧ ef = -53) := by
      unfold target at next
      omega
    have overflow : ∀ k, (target (mf * mt) (ef + et) - (ef + et)).toNat = k + 1 →
        (2 ^ 54 - 1) * 2 ^ k ≤ mf * mt := by
      intro k shift
      rw [shift] at carry
      have rounded := shift_rounded_le (mf * mt) k
      rw [carry] at rounded
      apply (Nat.le_div_iff_mul_le (Nat.two_pow_pos _)).mp
      omega
    rcases cases with ⟨rfl, narrowThreshold, rfl | rfl⟩ | ⟨rfl, rfl⟩
    · have large := overflow 51 (by omega)
      omega
    · have large := overflow 52 (by omega)
      omega
    · have large := overflow 52 (by omega)
      omega

end
theorem factor_unpack (factor : Float) (nonneg : 0 ≤ factor) (below : factor < 1) :
    (∃ sign, factor.toModel.unpack = .zero sign) ∨
      ∃ m e hp, factor.toModel.unpack = .finite .positive m e hp ∧ Canonical m e ∧ e ≤ -53 := by
  rw [le_iff_compare, zero_unpack] at nonneg
  rw [lt_iff_compare, one_unpack] at below
  obtain ⟨order, compared, isLE⟩ := nonneg
  cases unpacked : factor.toModel.unpack with
  | notANumber =>
      rw [unpacked] at compared
      cases compared
  | infinity sign =>
      rw [unpacked] at compared below
      cases sign
      · cases compared
        cases isLE
      · cases below
  | zero sign => exact Or.inl ⟨sign, rfl⟩
  | finite sign m e hp =>
      rw [unpacked] at compared below
      cases sign
      · cases compared
        cases isLE
      · have canonical := unpack_canonical factor.toModel .positive m e hp unpacked
        rw [compare_positive, Option.some.injEq, then_lt_iff] at below
        refine Or.inr ⟨m, e, hp, rfl, canonical, ?_⟩
        have tight := canonical.tight
        unfold Below at below
        omega

theorem threshold_unpack (threshold : Float) (positive : 0 < threshold) :
    threshold.toModel.unpack = .infinity .positive ∨
      ∃ m e hp, threshold.toModel.unpack = .finite .positive m e hp ∧ Canonical m e := by
  rw [lt_iff_compare, zero_unpack] at positive
  cases unpacked : threshold.toModel.unpack with
  | notANumber =>
      rw [unpacked] at positive
      cases positive
  | infinity sign =>
      rw [unpacked] at positive
      cases sign
      · cases positive
      · exact Or.inl rfl
  | zero sign =>
      rw [unpacked] at positive
      cases positive
  | finite sign m e hp =>
      rw [unpacked] at positive
      cases sign
      · cases positive
      · exact Or.inr ⟨m, e, hp, rfl, unpack_canonical threshold.toModel .positive m e hp unpacked⟩

theorem not_le_zero_of_pos (threshold : Float) (positive : 0 < threshold) : ¬ threshold ≤ 0 := by
  intro reached
  rw [le_iff_compare, zero_unpack] at reached
  obtain ⟨order, compared, isLE⟩ := reached
  rcases threshold_unpack threshold positive with infinite | ⟨m, e, hp, finite, -⟩
  · rw [infinite] at compared
    cases compared
    cases isLE
  · rw [finite] at compared
    cases compared
    cases isLE

theorem product_unpack {mf mt mv : Nat} {ef et ev : Int} (hf : 0 < mf) (ht : 0 < mt)
    (hv : 0 < mv) (factor : Canonical mf ef) (threshold : Canonical mt et)
    (value : Canonical mv ev) (small : ef ≤ -53) (integer : -52 ≤ ev) (normal : 2 ^ 52 ≤ mv)
    (order : Below mt et (mv + 1) ev) :
    (Float.Model.pack (UnpackedFloat.mul Format.binary64 (.finite .positive mf ef hf)
      (.finite .positive mt et ht))).unpack.compare (.finite .positive mv ev hv) = some .lt := by
  obtain ⟨exponent, same, next⟩ := product_below factor threshold value small integer normal order
  have rounded := round_exact .positive (mf * mt) (ef + et) (product_widened factor threshold)
    (product_mantissa_fits factor threshold)
  have product : UnpackedFloat.mul Format.binary64 (.finite .positive mf ef hf)
      (.finite .positive mt et ht) =
        roundWithAccuracy Format.binary64 .positive (mf * mt) (ef + et) .exact := rfl
  have tight := product_mantissa_tight factor threshold
  have fits := product_mantissa_fits factor threshold
  have low : -1074 ≤ target (mf * mt) (ef + et) := le_max_right _ _
  have high := value.high
  simp only at rounded
  rw [← productMantissa] at rounded
  rw [product, rounded]
  split
  · rw [unpack_pack_zero]
    rfl
  · next nonzero =>
    split
    · next small =>
      have canonical : Canonical (productMantissa mf mt ef et) (target (mf * mt) (ef + et)) :=
        ⟨Nat.pos_of_ne_zero nonzero, small, low, by omega, tight⟩
      rw [unpack_pack _ _ _ canonical, compare_positive, Option.some.injEq, then_lt_iff]
      unfold Below
      by_cases equal : target (mf * mt) (ef + et) = ev
      · exact Or.inr ⟨equal, same equal⟩
      · exact Or.inl (by omega)
    · next large =>
      have carried : productMantissa mf mt ef et = 2 ^ 53 := by omega
      have notLast : target (mf * mt) (ef + et) ≠ ev := by
        intro equal
        have bound := same equal
        have narrow := value.fits
        omega
      have canonical : Canonical (2 ^ 52) (target (mf * mt) (ef + et) + 1) :=
        ⟨by decide, by decide, by omega, by omega, Or.inl (le_refl _)⟩
      rw [unpack_pack _ _ _ canonical, compare_positive, Option.some.injEq, then_lt_iff]
      unfold Below
      by_cases equal : target (mf * mt) (ef + et) + 1 = ev
      · exact Or.inr ⟨equal, next equal carried⟩
      · exact Or.inl (by omega)

/-- A threshold that an integer reaches is, multiplied by a factor below one, exceeded by it. -/
theorem mul_lt_of_lt_one (factor threshold : Float) (value : Int32) (nonneg : 0 ≤ factor)
    (below : factor < 1) (positive : 0 < threshold) (reached : threshold ≤ ofInt32 value) :
    factor * threshold < ofInt32 value := by
  rw [le_iff_compare] at reached
  obtain ⟨order, compared, isLE⟩ := reached
  rcases threshold_unpack threshold positive with infinite | ⟨mt, et, ht, unpacked, canonical⟩
  · rw [infinite] at compared
    rcases ofInt32_unpack value with ⟨-, zero | ⟨m, e, hp, negative⟩⟩ | ⟨m, e, hp, finite, -⟩
    · rw [zero] at compared
      cases compared
      cases isLE
    · rw [negative] at compared
      cases compared
      cases isLE
    · rw [finite] at compared
      cases compared
      cases isLE
  · rw [unpacked] at compared
    rcases ofInt32_unpack value with ⟨-, nonpositive⟩ | ⟨mv, ev, hv, finite, exact, normal, integer⟩
    · rw [not_le_of_positive ht _ nonpositive] at compared
      cases compared
      cases isLE
    · rw [finite, compare_positive, Option.some.injEq] at compared
      rw [← compared, then_le_iff] at isLE
      have product : (factor * threshold).toModel = Float.Model.pack
        (UnpackedFloat.mul Format.binary64 factor.toModel.unpack threshold.toModel.unpack) := rfl
      rw [lt_iff_compare, product, unpacked, finite]
      rcases factor_unpack factor nonneg below with ⟨sign, zero⟩ | ⟨mf, ef, hf, nonzero, tiny, small⟩
      · rw [zero]
        have absorbed : UnpackedFloat.mul Format.binary64 (.zero sign)
            (.finite .positive mt et ht) = .zero (sign * .positive) := rfl
        rw [absorbed, unpack_pack_zero]
        rfl
      · rw [nonzero]
        exact product_unpack hf ht hv tiny canonical exact small integer normal isLE

theorem product_high {mf mt : Nat} {ef et : Int} (factor : Canonical mf ef)
    (threshold : Canonical mt et) (small : ef ≤ -53) :
    target (mf * mt) (ef + et) ≤ 971 ∧
      (productMantissa mf mt ef et = 2 ^ 53 → target (mf * mt) (ef + et) + 1 ≤ 971) := by
  have high := threshold.high
  by_cases integer : -52 ≤ et
  · have normal : 2 ^ 52 ≤ mt := threshold.tight.resolve_right (by omega)
    obtain ⟨exponent, same, -⟩ := product_below factor threshold threshold small integer normal
      (Or.inr ⟨rfl, Nat.lt_succ_self mt⟩)
    refine ⟨by omega, ?_⟩
    intro carried
    have narrow := threshold.fits
    have below : target (mf * mt) (ef + et) ≠ et := by
      intro equal
      have bound := same equal
      omega
    omega
  · have log := product_log2_le factor threshold
    have bits : mt.log2 ≤ 52 :=
      Nat.le_of_lt_succ ((Nat.log2_lt threshold.positive.ne').mpr threshold.fits)
    unfold target
    omega

theorem unpack_pack_special : (Float.Model.pack .notANumber).unpack = .notANumber ∧
    (Float.Model.pack (.infinity .positive)).unpack = .infinity .positive := ⟨rfl, rfl⟩

theorem not_mul_lt_zero (factor threshold : Float) (nonneg : 0 ≤ factor) (below : factor < 1)
    (positive : 0 < threshold) : ¬ factor * threshold < 0 := by
  have product : (factor * threshold).toModel = Float.Model.pack
    (UnpackedFloat.mul Format.binary64 factor.toModel.unpack threshold.toModel.unpack) := rfl
  intro negative
  rw [lt_iff_compare, product, zero_unpack] at negative
  rcases factor_unpack factor nonneg below with ⟨sign, zero⟩ | ⟨mf, ef, hf, nonzero, tiny, small⟩
  · rcases threshold_unpack threshold positive with infinite | ⟨mt, et, ht, finite, -⟩
    · have undefined' : UnpackedFloat.mul Format.binary64 (.zero sign) (.infinity .positive) =
          .notANumber := by
        cases sign
        · rfl
        · rfl
      rw [zero, infinite, undefined', unpack_pack_special.1] at negative
      cases negative
    · have absorbed : UnpackedFloat.mul Format.binary64 (.zero sign)
          (.finite .positive mt et ht) = .zero (sign * .positive) := rfl
      rw [zero, finite, absorbed, unpack_pack_zero] at negative
      cases negative
  · rcases threshold_unpack threshold positive with infinite | ⟨mt, et, ht, finite, canonical⟩
    · have unbounded : UnpackedFloat.mul Format.binary64 (.finite .positive mf ef hf)
          (.infinity .positive) = .infinity .positive := rfl
      rw [nonzero, infinite, unbounded, unpack_pack_special.2] at negative
      cases negative
    · have rounded := round_exact .positive (mf * mt) (ef + et) (product_widened tiny canonical)
        (product_mantissa_fits tiny canonical)
      have product' : UnpackedFloat.mul Format.binary64 (.finite .positive mf ef hf)
          (.finite .positive mt et ht) =
            roundWithAccuracy Format.binary64 .positive (mf * mt) (ef + et) .exact := rfl
      have fits := product_mantissa_fits tiny canonical
      have tight := product_mantissa_tight tiny canonical
      have low : -1074 ≤ target (mf * mt) (ef + et) := le_max_right _ _
      have high := product_high tiny canonical small
      simp only at rounded
      rw [← productMantissa] at rounded
      rw [nonzero, finite, product', rounded] at negative
      split at negative
      · rw [unpack_pack_zero] at negative
        cases negative
      · next nonzero =>
        split at negative
        · next small =>
          have fits' : Canonical (productMantissa mf mt ef et) (target (mf * mt) (ef + et)) :=
            ⟨Nat.pos_of_ne_zero nonzero, small, low, high.1, tight⟩
          rw [unpack_pack _ _ _ fits'] at negative
          cases negative
        · next large =>
          have carried : productMantissa mf mt ef et = 2 ^ 53 :=
            Nat.le_antisymm fits (Nat.le_of_not_lt large)
          have fits' : Canonical (2 ^ 52) (target (mf * mt) (ef + et) + 1) :=
            ⟨by decide, by decide, by omega, high.2 carried, Or.inl (le_refl _)⟩
          rw [unpack_pack _ _ _ fits'] at negative
          cases negative

end PiAgents.Binary64
