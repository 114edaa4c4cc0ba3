import Mathlib.Data.Rat.Floor
import Mathlib.Data.Sign.Basic
import SassData.Proofs.Number.StyleDecimals

/-!
# Remainders of integers

The remainder of two integers is worked out in floating point: the one of the quotient cut off
towards zero, and where its sign is not that of the divisor, one divisor more. As long as both
integers are floating-point numbers themselves no step is rounded, and what comes out is the
remainder of the quotient rounded down.
-/

namespace SassData.Number

set_option autoImplicit false

variable {j k m n : Int}

/-! ## What is left over -/

/-- What is left of `m` when multiples of `n` are taken away: less than `n` in size, and nought or
of the sign of `n`. -/
structure IsRest (m n k : Int) : Prop where
  multiple : n ∣ m - k
  size : k.natAbs < n.natAbs
  sign : k = 0 ∨ (k < 0 ↔ n < 0)

theorem natAbs_tmod_lt (hn : n ≠ 0) : (m.tmod n).natAbs < n.natAbs := by
  rw [Int.natAbs_tmod]
  exact Nat.mod_lt _ (Int.natAbs_pos.mpr hn)

theorem isRest_tmod (hn : n ≠ 0) (h : m.tmod n = 0 ∨ (m.tmod n < 0 ↔ n < 0)) :
    IsRest m n (m.tmod n) :=
  ⟨Int.dvd_self_sub_tmod, natAbs_tmod_lt hn, h⟩

/-- One divisor more turns the sign around and stays below the divisor. -/
theorem isRest_tmod_add (hn : n ≠ 0) (hne : m.tmod n ≠ 0) (h : ¬ (m.tmod n < 0 ↔ n < 0)) :
    IsRest m n (m.tmod n + n) := by
  have hsize := natAbs_tmod_lt (m := m) hn
  refine ⟨?_, by omega, by omega⟩
  rw [← Int.sub_sub]
  exact Int.dvd_sub Int.dvd_self_sub_tmod (Int.dvd_refl n)

theorem IsRest.floor_eq {q : Int} (hn : n ≠ 0) (h : IsRest m n k) (hq : m - k = n * q) :
    ⌊(m / n : ℚ)⌋ = q := by
  have hm : (m : ℚ) = q * n + k := by
    have hcast : m = q * n + k := by
      rw [Int.mul_comm]
      omega
    exact_mod_cast hcast
  have hquotient : (m / n : ℚ) = q + k / n := by
    rw [hm, add_div, mul_div_cancel_right₀ _ (Int.cast_ne_zero.mpr hn)]
  have hsize := h.size
  have hsign := h.sign
  rw [hquotient, Int.floor_eq_iff]
  rcases Int.lt_or_gt_of_ne hn with hneg | hpos
  · have hneg' : (n : ℚ) < 0 := Int.cast_lt_zero.mpr hneg
    have hlow : (0 : ℚ) ≤ k / n :=
      div_nonneg_of_nonpos (by exact_mod_cast (by omega : k ≤ 0)) hneg'.le
    have hhigh : (k / n : ℚ) < 1 :=
      (div_lt_one_of_neg hneg').mpr (by exact_mod_cast (by omega : n < k))
    constructor <;> linarith
  · have hpos' : (0 : ℚ) < n := Int.cast_pos.mpr hpos
    have hlow : (0 : ℚ) ≤ k / n := div_nonneg (by exact_mod_cast (by omega : 0 ≤ k)) hpos'.le
    have hhigh : (k / n : ℚ) < 1 := (div_lt_one hpos').mpr (by exact_mod_cast (by omega : k < n))
    constructor <;> linarith

/-! ## Integers in floating point -/

namespace Binary64

variable {x y : Binary64}

structure IsInteger (x : Binary64) (k : Int) : Prop where
  finite : x.isFinite = true
  units : x.signedUnits = k * unitsInOne

theorem IsInteger.value_eq (h : x.IsInteger k) : x.value = k := by
  have hpos : (unitsInOne : ℚ) ≠ 0 := Nat.cast_ne_zero.mpr (Nat.ne_of_gt (twoPow_pos 1074))
  rw [value, h.units, Int.cast_mul, Int.cast_natCast, mul_div_cancel_right₀ _ hpos]

theorem isInteger_ofInt (h : k.natAbs ≤ twoPow 53) : (ofInt k).IsInteger k :=
  ⟨(signedUnits_ofInt h).1, (signedUnits_ofInt h).2⟩

theorem isInteger_finite_iff {s : Bool} {u : Nat} {hu : InFormat u} :
    (finite s u hu).IsInteger k ↔ u = k.natAbs * unitsInOne ∧ if s then k ≤ 0 else 0 ≤ k := by
  have hpos : (0 : Int) < unitsInOne := Int.natCast_pos.mpr (twoPow_pos 1074)
  have habs : (k * unitsInOne).natAbs = k.natAbs * unitsInOne := by
    rw [Int.natAbs_mul, Int.natAbs_natCast]
  have hnonneg : 0 ≤ k * unitsInOne ↔ 0 ≤ k := Int.mul_nonneg_iff_of_pos_right hpos
  have hnonpos : k * unitsInOne ≤ 0 ↔ k ≤ 0 := by
    rw [← Int.neg_nonneg, ← Int.neg_mul, Int.mul_nonneg_iff_of_pos_right hpos, Int.neg_nonneg]
  have hsigned : (finite s u hu).signedUnits = k * unitsInOne ↔
      u = (k * unitsInOne).natAbs ∧ if s then k * unitsInOne ≤ 0 else 0 ≤ k * unitsInOne := by
    cases s <;> simp only [signedUnits, if_true, if_false, Bool.false_eq_true] <;> omega
  rw [← habs, ← hnonneg, ← hnonpos, ← hsigned]
  exact ⟨IsInteger.units, fun h => ⟨rfl, h⟩⟩

/-- Cutting a quotient of integers off needs no rounding. -/
theorem IsInteger.exists_remainder (hx : x.IsInteger m) (hy : y.IsInteger n) (hn : n ≠ 0)
    (hm : m.natAbs ≤ twoPow 53) : ∃ r, x.remainder? y = some r ∧ r.IsInteger (m.tmod n) := by
  obtain ⟨s, u, hu, rfl⟩ := eq_finite hx.finite
  obtain ⟨t, v, hv, rfl⟩ := eq_finite hy.finite
  obtain ⟨hm', hsign⟩ := isInteger_finite_iff.mp hx
  obtain ⟨hn', -⟩ := isInteger_finite_iff.mp hy
  have hdivisor : (v == 0) = false := by
    rw [hn']
    exact beq_false_of_ne (Nat.ne_of_gt (Nat.mul_pos (Int.natAbs_pos.mpr hn) (twoPow_pos 1074)))
  have hformat : InFormat (m.natAbs % n.natAbs * unitsInOne) :=
    inFormat_mul_twoPow (Nat.le_trans (Nat.mod_le _ _) hm) (Nat.le_refl _)
  have hround := roundBits_of_fits hformat.fits
  have hsmall : roundBits (m.natAbs % n.natAbs * unitsInOne) 1 < unitsBound := by
    rw [hround]
    exact Nat.lt_of_not_le hformat.notTooLarge
  refine ⟨_, by rw [remainder?, hdivisor, if_neg Bool.false_ne_true], ?_⟩
  rw [hm', hn', Nat.mul_mod_mul_right, nearest, dif_pos hsmall, isInteger_finite_iff, hround,
    Int.natAbs_tmod]
  refine ⟨rfl, ?_⟩
  cases s with
  | false => exact Int.tmod_nonneg n hsign
  | true =>
    have hneg := Int.tmod_nonneg n (Int.neg_nonneg_of_nonpos hsign)
    rw [Int.neg_tmod] at hneg
    exact Int.nonpos_of_neg_nonneg hneg

theorem isInteger_zero (negative : Bool) : (zero negative).IsInteger 0 := by
  have hzero : ∀ negative, (zero negative).isFinite = true ∧ (zero negative).signedUnits = 0 := by
    decide +kernel
  exact ⟨(hzero negative).1, (hzero negative).2.trans (Int.zero_mul _).symm⟩

/-- A sum of integers is rounded only beyond the integers that are floating-point numbers. -/
theorem IsInteger.add (hx : x.IsInteger j) (hy : y.IsInteger k) (h : (j + k).natAbs ≤ twoPow 53) :
    (x + y).IsInteger (j + k) := by
  obtain ⟨s, u, hu, rfl⟩ := eq_finite hx.finite
  obtain ⟨t, v, hv, rfl⟩ := eq_finite hy.finite
  have hpos : (0 : Int) < unitsInOne := Int.natCast_pos.mpr (twoPow_pos 1074)
  change (Binary64.add _ _).IsInteger (j + k)
  simp only [Binary64.add, hx.units, hy.units, ← Int.add_mul]
  split
  · next hzero =>
    rw [beq_iff_eq, Int.mul_eq_zero, or_iff_left (Int.ne_of_gt hpos)] at hzero
    rw [hzero]
    exact isInteger_zero _
  · exact isInteger_ofInt h

theorem IsInteger.isZero_iff (h : x.IsInteger k) : x.isZero = true ↔ k = 0 := by
  obtain ⟨s, u, hu, rfl⟩ := eq_finite h.finite
  have hpos : 0 < unitsInOne := twoPow_pos 1074
  rw [isZero, beq_iff_eq, (isInteger_finite_iff.mp h).1, Nat.mul_eq_zero, Int.natAbs_eq_zero,
    or_iff_left (Nat.ne_of_gt hpos)]

theorem IsInteger.lt_zero_iff (h : x.IsInteger k) : x < 0 ↔ k < 0 := by
  have hzero : (0 : Binary64).IsInteger 0 := @isInteger_ofInt 0 (by decide)
  have hpos : (0 : Int) < unitsInOne := Int.natCast_pos.mpr (twoPow_pos 1074)
  rw [lt_iff h.finite hzero.finite, h.units, hzero.units, Int.mul_lt_mul_right hpos]

end Binary64

/-! ## Remainders of numbers -/

theorem Magnitude.toFloat_int (h : k.natAbs ≤ twoPow 53) : (int k).toFloat = .ok (.ofInt k) := by
  rw [toFloat, if_pos (Binary64.isInteger_ofInt h).finite]

theorem Magnitude.exists_mod (hm : m.natAbs ≤ twoPow 53) (hn : n ≠ 0) (hn' : n.natAbs ≤ twoPow 53) :
    ∃ r k, (int m).mod (int n) = .ok (.float r) ∧ r.IsInteger k ∧ IsRest m n k := by
  have hy := Binary64.isInteger_ofInt hn'
  obtain ⟨r, hr, hrest⟩ := (Binary64.isInteger_ofInt hm).exists_remainder hy hn hm
  have hzero : (int n).isZero = false := beq_false_of_ne hn
  have hmod : (int m).mod (int n) =
      if !r.isZero && ((r < 0 : Bool) != (Binary64.ofInt n < 0 : Bool)) then
        .ok (.float (r + .ofInt n))
      else .ok (.float r) := by
    rw [mod, hzero, toFloat_int hm, toFloat_int hn']
    simp only [bind, Except.bind, hr, if_neg Bool.false_ne_true]
    rfl
  have hmove : (!r.isZero && ((r < 0 : Bool) != (Binary64.ofInt n < 0 : Bool))) = true ↔
      m.tmod n ≠ 0 ∧ ¬ (m.tmod n < 0 ↔ n < 0) := by
    rw [Bool.and_eq_true, Bool.not_eq_true', ← Bool.not_eq_true, hrest.isZero_iff, bne_iff_ne,
      Ne, decide_eq_decide, hrest.lt_zero_iff, hy.lt_zero_iff]
  by_cases h : m.tmod n ≠ 0 ∧ ¬ (m.tmod n < 0 ↔ n < 0)
  · have hrest' := isRest_tmod_add hn h.1 h.2
    refine ⟨r + .ofInt n, m.tmod n + n, ?_, hrest.add hy ?_, hrest'⟩
    · rw [hmod, if_pos (hmove.mpr h)]
    · exact Nat.le_trans (Nat.le_of_lt hrest'.size) hn'
  · have hstay : m.tmod n = 0 ∨ (m.tmod n < 0 ↔ n < 0) := by
      rw [not_and_not_right] at h
      exact or_iff_not_imp_left.mpr h
    refine ⟨r, m.tmod n, ?_, hrest, isRest_tmod hn hstay⟩
    rw [hmod, if_neg (mt hmove.mp h)]

variable {a b : Number}

/-- The remainder of the quotient rounded down, as a floating-point number: nought or of the sign of
the divisor, below it in size, and apart from the dividend by a multiple of it. -/
structure IsFloorRemainder (m n : Int) (r : Binary64) : Prop where
  finite : r.isFinite = true
  value : r.value = m - n * ⌊(m / n : ℚ)⌋
  sign : r.value = 0 ∨ SignType.sign r.value = SignType.sign (n : ℚ)
  size : |r.value| < |(n : ℚ)|
  multiple : ∃ q : Int, m - r.value = n * q

theorem IsRest.sign_eq (hn : n ≠ 0) (h : IsRest m n k) :
    (k : ℚ) = 0 ∨ SignType.sign (k : ℚ) = SignType.sign (n : ℚ) := by
  rcases Int.lt_trichotomy k 0 with hk | hk | hk
  · have hneg : n < 0 := (h.sign.resolve_left (Int.ne_of_lt hk)).mp hk
    have hk' : (k : ℚ) < 0 := Int.cast_lt_zero.mpr hk
    exact Or.inr ((sign_neg hk').trans (sign_neg (Int.cast_lt_zero.mpr hneg)).symm)
  · exact Or.inl (Int.cast_eq_zero.mpr hk)
  · have hpos : 0 < n := by
      have hsign := h.sign
      omega
    have hk' : (0 : ℚ) < k := Int.cast_pos.mpr hk
    exact Or.inr ((sign_pos hk').trans (sign_pos (Int.cast_pos.mpr hpos)).symm)

theorem isFloorRemainder_of_isRest {r : Binary64} (hn : n ≠ 0) (hr : r.IsInteger k)
    (h : IsRest m n k) : IsFloorRemainder m n r := by
  obtain ⟨q, hq⟩ := h.multiple
  have hvalue := hr.value_eq
  have hsub : (m - k : ℚ) = n * q := by exact_mod_cast hq
  refine ⟨hr.finite, ?_, ?_, ?_, q, ?_⟩
  · rw [hvalue, h.floor_eq hn hq, ← hsub, sub_sub_cancel]
  · rw [hvalue]
    exact h.sign_eq hn
  · rw [hvalue, ← Int.cast_abs, ← Int.cast_abs, Int.cast_lt, Int.abs_eq_natAbs, Int.abs_eq_natAbs]
    exact Int.ofNat_lt.mpr h.size
  · rw [hvalue, hsub]

/-- Integers that are floating-point numbers leave the remainder of the quotient rounded down, with
the units of those of the two that have any. -/
theorem exists_isFloorRemainder (ha : a.magnitude = .int m) (hb : b.magnitude = .int n)
    (hm : m.natAbs ≤ 2 ^ 53) (hn : 0 < n.natAbs) (hn' : n.natAbs ≤ 2 ^ 53) (hagree : a.Agree b) :
    ∃ c r, a.modulo b = .ok c ∧ c.magnitude = .float r ∧ IsFloorRemainder m n r ∧
      c.HasUnitsOf [a, b] := by
  obtain ⟨r, k, hmod, hr, hrest⟩ := Magnitude.exists_mod hm (Int.natAbs_pos.mp hn) hn'
  rcases agreeing_cases a b "%" with ⟨-, units, hunits⟩ | ⟨hdiffer, -⟩
  · have hsource := agreeing_hasUnitsOf hunits
    refine ⟨{ units with magnitude := .float r }, r, ?_, rfl, ?_, ⟨hsource.same, hsource.source⟩⟩
    · rw [modulo, additive, hunits, ha, hb, hmod]
      rfl
    · exact isFloorRemainder_of_isRest (Int.natAbs_pos.mp hn) hr hrest
  · exact absurd hagree hdiffer

/-- The integer farthest below zero up to which all are floating-point numbers. -/
def lowest : Number := ⟨.int (-9007199254740992), ["px"], []⟩

theorem exists_isFloorRemainder_lowest :
    (-9007199254740992 : Int).natAbs ≤ 2 ^ 53 ∧ 0 < (3 : Int).natAbs ∧ (3 : Int).natAbs ≤ 2 ^ 53 ∧
      lowest.Agree (.ofInt 3) ∧
      ∃ c r, lowest.modulo (.ofInt 3) = .ok c ∧ c.magnitude = .float r ∧
        IsFloorRemainder (-9007199254740992) 3 r ∧ c.HasUnitsOf [lowest, .ofInt 3] := by
  have hm : (-9007199254740992 : Int).natAbs ≤ 2 ^ 53 := by decide
  have hn : 0 < (3 : Int).natAbs := by decide
  have hn' : (3 : Int).natAbs ≤ 2 ^ 53 := by decide
  have hagree : lowest.Agree (.ofInt 3) := Or.inr (Or.inl rfl)
  exact ⟨hm, hn, hn', hagree, exists_isFloorRemainder rfl rfl hm hn hn' hagree⟩

/-- A remainder of nought keeps the sign of the dividend. -/
example : (Magnitude.mod (.int (-7)) (.int 3)).toOption = some (.float 2) ∧
    (Magnitude.mod (.int 7) (.int (-3))).toOption = some (.float (-2)) ∧
    (Magnitude.mod (.int (-6)) (.int 3)).toOption = some (.float (.zero true)) := by
  decide +kernel

end SassData.Number
