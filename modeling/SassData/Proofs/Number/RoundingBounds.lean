import SassData.Proofs.Number.FailingOperations
import SassData.Proofs.Value.StructuralEquality

/-!
# Bounds that rounding keeps

Rounding does not leave a bound that is a floating-point number itself. So sums and quotients stay
between such bounds, a clamp takes every number between its own, and small integers are
floating-point numbers without rounding.
-/

namespace SassData

set_option autoImplicit false

namespace Number

theorem bind_eq_ok_iff {α β : Type} {x : Except ArithmeticFault α}
    {f : α → Except ArithmeticFault β} {b : β} :
    x >>= f = .ok b ↔ ∃ a, x = .ok a ∧ f a = .ok b := by
  cases x with
  | error fault => exact iff_of_false nofun (by rintro ⟨a, h, -⟩; cases h)
  | ok a =>
    refine ⟨fun h => ⟨a, rfl, h⟩, ?_⟩
    rintro ⟨a', h, hf⟩
    cases h
    exact hf

/-! ## Rounding below a bound -/

theorem excessBits_mono {u m : Nat} (h : u ≤ m) : excessBits u ≤ excessBits m := by
  apply excessBits_le
  exact Nat.lt_of_le_of_lt h (lt_of_excessBits m)

theorem roundQuotient_le_of_le {num den k : Nat} (hden : 0 < den) (h : num ≤ den * k) :
    roundQuotient num den ≤ k := by
  rcases Nat.lt_or_eq_of_le (Nat.div_le_of_le_mul h) with hlt | heq
  · exact Nat.le_trans (roundQuotient_le num den) hlt
  · -- The bound is reached, so nothing is left to be rounded up.
    have hrest : num % den = 0 := by
      have hdiv := Nat.div_add_mod num den
      rw [heq] at hdiv
      omega
    have hround : roundQuotient num den = k := by
      rw [roundQuotient, hrest, heq]
      simp only [Nat.mul_zero, Nat.not_lt_zero, decide_false, Bool.false_or]
      rw [beq_false_of_ne (Nat.ne_of_lt hden), Bool.false_and, if_neg Bool.false_ne_true]
    exact Nat.le_of_eq hround

theorem roundQuotient_near {num den : Nat} (hden : 0 < den) :
    2 * (roundQuotient num den * den) ≤ 2 * num + den ∧
      2 * num ≤ 2 * (roundQuotient num den * den) + den := by
  have hdiv := Nat.div_add_mod num den
  have hmod := Nat.mod_lt num hden
  rw [Nat.mul_comm] at hdiv
  simp only [roundQuotient]
  split
  · next hup =>
    rw [Nat.add_mul, Nat.one_mul]
    simp only [Bool.or_eq_true, Bool.and_eq_true, decide_eq_true_eq, beq_iff_eq] at hup
    omega
  · next hdown =>
    simp only [Bool.or_eq_true, Bool.and_eq_true, decide_eq_true_eq, beq_iff_eq] at hdown
    omega

theorem roundQuotient_mul {den : Nat} (k : Nat) (hden : 0 < den) :
    roundQuotient (den * k) den = k := by
  apply Nat.le_antisymm (roundQuotient_le_of_le hden (Nat.le_refl _))
  have hle := le_roundQuotient (den * k) den
  rwa [Nat.mul_div_cancel_left k hden] at hle

/-- Rounding does not leave a bound that is a floating-point number itself. -/
theorem roundBits_le_of_fits {num den m : Nat} (hm : Fits m) (hden : 0 < den)
    (h : num ≤ den * m) : roundBits num den ≤ m := by
  have hbits : excessBits (num / den) ≤ excessBits m :=
    excessBits_mono (Nat.div_le_of_le_mul h)
  obtain ⟨k, rfl⟩ := Nat.dvd_trans (twoPow_dvd_twoPow hbits) hm
  rw [← Nat.mul_assoc] at h
  rw [roundBits, Nat.mul_comm]
  refine Nat.mul_le_mul_left _ (roundQuotient_le_of_le ?_ h)
  exact Nat.mul_pos hden (twoPow_pos _)

theorem le_roundBits_of_fits {num m : Nat} (hm : Fits m) (h : m ≤ num) : m ≤ roundBits num 1 := by
  by_cases hbits : excessBits num ≤ excessBits m
  · obtain ⟨k, rfl⟩ := Nat.dvd_trans (twoPow_dvd_twoPow hbits) hm
    rw [roundBits_one, Nat.mul_comm]
    apply Nat.mul_le_mul_right
    refine Nat.le_trans ?_ (le_roundQuotient _ _)
    rw [Nat.le_div_iff_mul_le (twoPow_pos _), Nat.mul_comm]
    exact h
  · have hlt : excessBits m < excessBits num := Nat.not_le.mp hbits
    have htop : twoPow (53 + excessBits m) ≤ twoPow (52 + excessBits num) :=
      twoPow_le_twoPow (by omega)
    have hround := (leadingBit_le_roundBits (Nat.zero_lt_of_lt hlt)).1
    have hsmall := lt_of_excessBits m
    omega

namespace Binary64

variable {x y : Binary64}

/-- What has few enough digits and is not too small a fraction is a floating-point number. -/
theorem inFormat_mul_twoPow {m k : Nat} (hm : m ≤ twoPow 53) (hk : k ≤ 1074) :
    InFormat (m * twoPow k) := by
  refine ⟨fits_mul_twoPow hm, Nat.not_le.mpr ?_⟩
  calc
    m * twoPow k ≤ twoPow 53 * twoPow 1074 := Nat.mul_le_mul hm (twoPow_le_twoPow hk)
    _ = twoPow 1127 := (twoPow_add 53 1074).symm
    _ < unitsBound := by decide +kernel

theorem inFormat_roundQuotient {u : Nat} (hu : InFormat u) :
    InFormat (roundQuotient u unitsInOne * unitsInOne) := by
  have hpos : 0 < unitsInOne := twoPow_pos 1074
  by_cases hbits : 1074 ≤ excessBits u
  · have hdvd : unitsInOne ∣ u := Nat.dvd_trans (twoPow_dvd_twoPow hbits) hu.fits
    obtain ⟨k, hk⟩ := hdvd
    rw [hk] at hu ⊢
    rwa [roundQuotient_mul k hpos, Nat.mul_comm]
  · -- There are digits behind the point, so there are not many in front of it.
    have hlt : u < twoPow (53 + 1073) :=
      Nat.lt_of_lt_of_le (lt_of_excessBits u) (twoPow_le_twoPow (by omega))
    have hbound : u ≤ unitsInOne * twoPow 53 := by
      rw [unitsInOne, ← twoPow_add]
      exact Nat.le_trans (Nat.le_of_lt hlt) (twoPow_le_twoPow (by omega))
    exact inFormat_mul_twoPow (roundQuotient_le_of_le hpos hbound) (Nat.le_refl _)

theorem signedUnits_ofInt_of_inFormat {n : Int} (h : InFormat (n.natAbs * unitsInOne)) :
    (ofInt n).isFinite = true ∧ (ofInt n).signedUnits = n * unitsInOne := by
  have habs : (n * (unitsInOne : Int)).natAbs = n.natAbs * unitsInOne := by
    rw [Int.natAbs_mul, Int.natAbs_natCast]
  rw [ofInt_eq_of_inFormat h habs]
  refine ⟨rfl, ?_⟩
  simp only [signedUnits, decide_eq_true_eq]
  split <;> omega

theorem signedUnits_ofInt {n : Int} (h : n.natAbs ≤ twoPow 53) :
    (ofInt n).isFinite = true ∧ (ofInt n).signedUnits = n * unitsInOne :=
  signedUnits_ofInt_of_inFormat (inFormat_mul_twoPow h (Nat.le_refl _))

theorem eq_finite (h : x.isFinite = true) : ∃ s u hu, x = finite s u hu := by
  cases x with
  | finite s u hu => exact ⟨s, u, hu, rfl⟩
  | nan | infinity => cases h

theorem lt_iff (hx : x.isFinite = true) (hy : y.isFinite = true) :
    x < y ↔ x.signedUnits < y.signedUnits := by
  obtain ⟨s, u, hu, rfl⟩ := eq_finite hx
  obtain ⟨t, v, hv, rfl⟩ := eq_finite hy
  exact decide_eq_true_iff

theorem le_iff (hx : x.isFinite = true) (hy : y.isFinite = true) :
    x ≤ y ↔ x.signedUnits ≤ y.signedUnits := by
  obtain ⟨s, u, hu, rfl⟩ := eq_finite hx
  obtain ⟨t, v, hv, rfl⟩ := eq_finite hy
  refine Iff.trans ?_ Int.le_iff_lt_or_eq.symm
  exact Bool.or_eq_true_iff.trans (or_congr decide_eq_true_iff beq_iff_eq)

theorem not_lt_of_isNan (h : x.isNan = true) : ¬ x < y := by
  cases x with
  | nan => exact Bool.false_ne_true
  | infinity | finite => cases h

theorem not_lt_isNan (h : y.isNan = true) : ¬ x < y := by
  cases y with
  | nan => cases x <;> exact Bool.false_ne_true
  | infinity | finite => cases h

theorem le_of_not_lt (hx : x.isNan = false) (hy : y.isNan = false) (h : ¬ x < y) : y ≤ x := by
  cases x with
  | nan => cases hx
  | infinity s =>
    cases y with
    | nan => cases hy
    | infinity t =>
      change ¬ (s && !t) = true at h
      change ((t && !s) || t == s) = true
      revert s t
      decide
    | finite t v hv =>
      change ¬ s = true at h
      change ((!s) || false) = true
      simpa using h
  | finite s u hu =>
    cases y with
    | nan => cases hy
    | infinity t =>
      change ¬ (!t) = true at h
      change (t || false) = true
      simpa using h
    | finite t v hv =>
      rw [lt_iff rfl rfl, Int.not_lt] at h
      exact (le_iff rfl rfl).mpr h

theorem add_between {bound : Nat} (hx : x.isFinite = true) (hy : y.isFinite = true)
    (hb : InFormat bound) (hlow : 0 < x.signedUnits + y.signedUnits)
    (hhigh : x.signedUnits + y.signedUnits ≤ bound) :
    (x + y).isFinite = true ∧ 0 ≤ (x + y).signedUnits ∧ (x + y).signedUnits ≤ bound := by
  obtain ⟨s, u, hu, rfl⟩ := eq_finite hx
  obtain ⟨t, v, hv, rfl⟩ := eq_finite hy
  change (add _ _).isFinite = true ∧ 0 ≤ (add _ _).signedUnits ∧ (add _ _).signedUnits ≤ bound
  generalize hsum : (finite s u hu).signedUnits + (finite t v hv).signedUnits = sum at hlow hhigh
  have hround : roundBits sum.natAbs 1 ≤ bound :=
    roundBits_le_of_fits hb.fits Nat.one_pos (by omega)
  have hsmall : roundBits sum.natAbs 1 < unitsBound := by
    have htop := hb.notTooLarge
    omega
  have hne : (sum == 0) = false := beq_false_of_ne (Int.ne_of_gt hlow)
  have hpositive : decide (sum < 0) = false := decide_eq_false (Int.not_lt.mpr (Int.le_of_lt hlow))
  simp only [add, hsum, hne, Bool.false_eq_true, if_false, ofUnits, nearest, dif_pos hsmall,
    hpositive]
  exact ⟨rfl, Int.natCast_nonneg _, Int.ofNat_le.mpr hround⟩

theorem ofQuotient_natCast (n m : Nat) :
    ofQuotient n m = nearest false (n * unitsInOne) m := by
  have hpositive (k : Nat) : decide ((k : Int) < 0) = false := by simp
  simp only [ofQuotient, hpositive, Int.natAbs_natCast, bne_self_eq_false]

theorem ofQuotient_between {n m : Nat} (hm : 0 < m) (h : n ≤ m) :
    0 ≤ ofQuotient n m ∧ ofQuotient n m ≤ 1 := by
  have hone := @signedUnits_ofInt 1 (by decide)
  have hzero := @signedUnits_ofInt 0 (by decide)
  have hformat := @inFormat_mul_twoPow 1 1074 (by decide) (Nat.le_refl _)
  rw [Nat.one_mul] at hformat
  have hround : roundBits (n * unitsInOne) m ≤ unitsInOne :=
    roundBits_le_of_fits hformat.fits hm (Nat.mul_le_mul_right _ h)
  have hsmall : roundBits (n * unitsInOne) m < unitsBound :=
    Nat.lt_of_le_of_lt hround (Nat.not_le.mp hformat.notTooLarge)
  have hquotient : ofQuotient n m = finite false (roundBits (n * unitsInOne) m)
      ⟨fits_roundBits _ _, Nat.not_le_of_lt hsmall⟩ := by
    rw [ofQuotient_natCast, nearest, dif_pos hsmall]
  rw [hquotient]
  constructor
  · refine (le_iff hzero.1 rfl).mpr ?_
    rw [hzero.2, Int.zero_mul]
    exact Int.natCast_nonneg _
  · refine (le_iff rfl hone.1).mpr ?_
    rw [hone.2, Int.one_mul]
    exact Int.ofNat_le.mpr hround

end Binary64

namespace Magnitude

variable {a : Magnitude} {x low high : Binary64} {k : Int}

theorem lt_float_iff (h : a.point = .units k) (hx : x.isFinite = true) :
    a.lt (.float x) = true ↔ k < x.signedUnits := by
  obtain ⟨s, u, hu, rfl⟩ := Binary64.eq_finite hx
  cases a with
  | int n =>
    cases h
    exact decide_eq_true_iff
  | float y =>
    cases y with
    | finite =>
      cases h
      exact decide_eq_true_iff.trans decide_eq_true_iff
    | nan | infinity => cases h

theorem float_lt_iff (h : a.point = .units k) (hx : x.isFinite = true) :
    Magnitude.lt (.float x) a = true ↔ x.signedUnits < k := by
  obtain ⟨s, u, hu, rfl⟩ := Binary64.eq_finite hx
  cases a with
  | int n =>
    cases h
    exact decide_eq_true_iff
  | float y =>
    cases y with
    | finite =>
      cases h
      exact decide_eq_true_iff.trans decide_eq_true_iff
    | nan | infinity => cases h

theorem point_float (hx : x.isFinite = true) : (float x).point = .units x.signedUnits := by
  obtain ⟨s, u, hu, rfl⟩ := Binary64.eq_finite hx
  rfl

theorem point_raised (h : a.point = .units k) (hlow : low.isFinite = true) :
    (if a.lt (.float low) then .float low else a).point = .units (max low.signedUnits k) := by
  split
  · next hlt =>
    have hk := (lt_float_iff h hlow).mp hlt
    rw [point_float hlow, Int.max_eq_left (Int.le_of_lt hk)]
  · next hlt =>
    have hk := Int.not_lt.mp (mt (lt_float_iff h hlow).mpr hlt)
    rw [h, Int.max_eq_right hk]

theorem point_lowered (h : a.point = .units k) (hhigh : high.isFinite = true) :
    (if lt (.float high) a then .float high else a).point = .units (min high.signedUnits k) := by
  split
  · next hlt =>
    have hk := (float_lt_iff h hhigh).mp hlt
    rw [point_float hhigh, Int.min_eq_left (Int.le_of_lt hk)]
  · next hlt =>
    have hk := Int.not_lt.mp (mt (float_lt_iff h hhigh).mpr hlt)
    rw [h, Int.min_eq_right hk]

theorem clamp_between (hlow : low.isFinite = true) (hhigh : high.isFinite = true)
    (hle : low.signedUnits ≤ high.signedUnits) (ha : ¬ a.IsNan) :
    ∃ k, (a.clamp (.float low) (.float high)).point = .units k ∧ low.signedUnits ≤ k ∧
      k ≤ high.signedUnits := by
  have hbetween (k : Int) : low.signedUnits ≤ min high.signedUnits (max low.signedUnits k) ∧
      min high.signedUnits (max low.signedUnits k) ≤ high.signedUnits := by
    omega
  cases hp : a.point with
  | units k => exact ⟨_, point_lowered (point_raised hp hlow) hhigh, hbetween k⟩
  | infinity s =>
    obtain rfl : a = .float (.infinity s) := by
      rcases a with _ | _ | _ | _ <;> cases hp
      rfl
    obtain ⟨t, v, hv, rfl⟩ := Binary64.eq_finite hhigh
    obtain ⟨r, u, hu, rfl⟩ := Binary64.eq_finite hlow
    cases s with
    | true =>
      -- The infinity is raised to the lower bound, which the upper one leaves alone.
      refine ⟨_, point_lowered (point_float hlow) hhigh, ?_⟩
      omega
    | false => exact ⟨_, rfl, hle, Int.le_refl _⟩
  | nan i =>
    obtain ⟨s, rfl⟩ : ∃ s, a = .float (.nan s i) := by
      rcases a with _ | _ | _ | _ <;> cases hp
      exact ⟨_, rfl⟩
    exact absurd trivial ha

theorem eq_nan (h : a.IsNan) : ∃ s i, a = .float (.nan s i) := by
  rcases a with _ | _ | _ | _
  · cases h
  · exact ⟨_, _, rfl⟩
  · cases h
  · cases h

theorem clamp_of_isNan (h : a.IsNan) : a.clamp (.float low) (.float high) = a := by
  obtain ⟨s, i, rfl⟩ := eq_nan h
  have hlow : ¬ Binary64.nan s i < low := Binary64.not_lt_of_isNan rfl
  have hhigh : ¬ high < Binary64.nan s i := Binary64.not_lt_isNan rfl
  simp only [clamp, lt, hlow, hhigh, decide_false, Bool.false_eq_true, if_false]

/-- Few enough units have a floating-point number, and it counts no other. -/
theorem toFloat_of_units (h : a.point = .units k) (hk : k.natAbs ≤ twoPow 53 * unitsInOne) :
    ∃ x, a.toFloat = .ok x ∧ x.isFinite = true ∧ x.signedUnits = k := by
  cases a with
  | int n =>
    cases h
    have hn : n.natAbs ≤ twoPow 53 := by
      rw [Int.natAbs_mul, Int.natAbs_natCast] at hk
      exact Nat.le_of_mul_le_mul_right hk (twoPow_pos 1074)
    obtain ⟨hfinite, hunits⟩ := Binary64.signedUnits_ofInt hn
    exact ⟨.ofInt n, by rw [toFloat, if_pos hfinite], hfinite, hunits⟩
  | float x =>
    cases x with
    | finite s u hu =>
      cases h
      exact ⟨_, rfl, rfl, rfl⟩
    | nan | infinity => cases h

theorem add_eq_of_toFloat {y : Binary64} (h : a.toFloat = .ok x) :
    a.add (.float y) = .ok (.float (x + y)) := by
  have hfloat : a.add (.float y) = inFloat (· + ·) a (.float y) := by
    cases a <;> rfl
  rw [hfloat, inFloat, h]
  rfl

theorem floor_between (bound : Nat) (hx : x.isFinite = true) (hlow : 0 ≤ x.signedUnits)
    (hhigh : x.signedUnits < (bound + 1) * unitsInOne) :
    ∃ n, (float x).floor = .ok n ∧ 0 ≤ n ∧ n ≤ bound := by
  obtain ⟨s, u, hu, rfl⟩ := Binary64.eq_finite hx
  have hpos : (0 : Int) < unitsInOne := Int.natCast_pos.mpr (twoPow_pos 1074)
  refine ⟨_, rfl, ?_⟩
  rw [Int.fdiv_eq_ediv_of_nonneg _ (Int.le_of_lt hpos)]
  exact ⟨Int.ediv_nonneg hlow (Int.le_of_lt hpos),
    Int.lt_add_one_iff.mp (Int.ediv_lt_of_lt_mul hpos hhigh)⟩

end Magnitude

end Number

end SassData
