import SassData.Engine.Evaluation

/-!
# Operations without an answer

Which operations on numbers have no result. An integer too large for floating point has none of its
own kind there, so it cannot meet a floating-point number; a division and a remainder also take two
integers to floating point, and an infinity has no remainder. Units are looked at first: where they
do not agree, the failure is an orderly one.
-/

namespace SassData.Number

set_option autoImplicit false

namespace Magnitude

/-- The integer has no floating-point number near it. -/
def IsTooLarge (n : Int) : Prop := (Binary64.ofInt n).isFinite = false

def IsBeyond : Magnitude → Prop
  | .int n => IsTooLarge n
  | .float _ => False

def Clash : Magnitude → Magnitude → Prop
  | .int m, .float _ => IsTooLarge m
  | .float _, .int n => IsTooLarge n
  | _, _ => False

def IsInfinite : Magnitude → Prop
  | .float (.infinity _) => True
  | _ => False

def IsNan : Magnitude → Prop
  | .float (.nan ..) => True
  | _ => False

def HasLargeQuotient : Magnitude → Magnitude → Prop
  | .int m, .int n => (Binary64.ofQuotient m n).isFinite = false
  | _, _ => False

end Magnitude

/-! ## The bound of floating point -/

theorem twoPow_succ (n : Nat) : twoPow (n + 1) = 2 * twoPow n := by
  rw [Nat.add_comm, twoPow_add]
  rfl

theorem roundBits_one (u : Nat) :
    roundBits u 1 = roundQuotient u (twoPow (excessBits u)) * twoPow (excessBits u) := by
  simp only [roundBits, Nat.div_one, Nat.one_mul]

theorem div_lt_twoPow (u : Nat) : u / twoPow (excessBits u) < twoPow 53 := by
  apply Nat.div_lt_of_lt_mul
  rw [← twoPow_add, Nat.add_comm]
  exact lt_of_excessBits u

theorem roundBits_lt_of_excessBits {u k : Nat} (h : excessBits u ≤ k) :
    roundBits u 1 < twoPow (54 + k) ∧ u + twoPow k < twoPow (54 + k) := by
  have hround : roundBits u 1 ≤ twoPow (53 + k) := by
    have hle := Nat.le_trans (roundQuotient_le u (twoPow (excessBits u))) (div_lt_twoPow u)
    rw [roundBits_one]
    refine Nat.le_trans (Nat.mul_le_mul_right _ hle) ?_
    rw [← twoPow_add]
    exact twoPow_le_twoPow (by omega)
  have hu : u < twoPow (53 + k) :=
    Nat.lt_of_lt_of_le (lt_of_excessBits u) (twoPow_le_twoPow (by omega))
  have hk : twoPow k ≤ twoPow (53 + k) := twoPow_le_twoPow (by omega)
  have hpos := twoPow_pos (53 + k)
  have hdouble : twoPow (54 + k) = 2 * twoPow (53 + k) := by
    rw [← twoPow_succ]
    congr 1
    omega
  omega

theorem leadingBit_le_roundBits {u : Nat} (h : 0 < excessBits u) :
    twoPow (52 + excessBits u) ≤ roundBits u 1 ∧ twoPow (52 + excessBits u) ≤ u := by
  have hlog : 52 + excessBits u = u.log2 := by
    unfold excessBits at h ⊢
    omega
  have hu : twoPow (52 + excessBits u) ≤ u := by
    rw [hlog]
    apply Nat.log2_self_le
    rintro rfl
    simp [Nat.log2_zero] at hlog
  have hq : twoPow 52 ≤ u / twoPow (excessBits u) := by
    rw [Nat.le_div_iff_mul_le (twoPow_pos _), ← twoPow_add]
    exact hu
  have hround := Nat.mul_le_mul_right (twoPow (excessBits u))
    (Nat.le_trans hq (le_roundQuotient u (twoPow (excessBits u))))
  rw [← twoPow_add, ← roundBits_one] at hround
  exact ⟨hround, hu⟩

theorem le_roundBits_of_excessBits {u k : Nat} (h : k + 1 < excessBits u) :
    twoPow (54 + k) ≤ roundBits u 1 ∧ twoPow (54 + k) ≤ u := by
  obtain ⟨hround, hu⟩ := leadingBit_le_roundBits (Nat.zero_lt_of_lt h)
  have htop : twoPow (54 + k) ≤ twoPow (52 + excessBits u) := twoPow_le_twoPow (by omega)
  exact ⟨Nat.le_trans htop hround, Nat.le_trans htop hu⟩

/-- With all bits to a half below the power, the last of which is odd, rounding goes up to it. -/
theorem le_roundQuotient_iff {u k : Nat} (hq : u / twoPow (k + 1) < twoPow 53) :
    twoPow 53 ≤ roundQuotient u (twoPow (k + 1)) ↔
      twoPow 53 * twoPow (k + 1) ≤ u + twoPow k := by
  have hhalf := twoPow_succ k
  have heven : twoPow 53 = 2 * twoPow 52 := twoPow_succ 52
  have hmod := Nat.mod_lt u (twoPow_pos (k + 1))
  have hdiv := Nat.div_add_mod u (twoPow (k + 1))
  rw [Nat.mul_comm] at hdiv
  by_cases hlast : u / twoPow (k + 1) + 1 = twoPow 53
  · have hprod : twoPow 53 * twoPow (k + 1) =
        u / twoPow (k + 1) * twoPow (k + 1) + twoPow (k + 1) := by
      rw [← hlast, Nat.succ_mul]
    rw [hprod]
    simp only [roundQuotient]
    split
    · next hup =>
      simp only [Bool.or_eq_true, Bool.and_eq_true, decide_eq_true_eq, beq_iff_eq] at hup
      omega
    · next hdown =>
      simp only [Bool.or_eq_true, Bool.and_eq_true, decide_eq_true_eq, beq_iff_eq] at hdown
      omega
  · have hround := roundQuotient_le u (twoPow (k + 1))
    have hprod : (u / twoPow (k + 1) + 2) * twoPow (k + 1) ≤ twoPow 53 * twoPow (k + 1) :=
      Nat.mul_le_mul_right _ (by omega)
    rw [Nat.add_mul] at hprod
    omega

/-- Rounding comes to a power of two from half a unit below it. -/
theorem le_roundBits_iff (u k : Nat) :
    twoPow (54 + k) ≤ roundBits u 1 ↔ twoPow (54 + k) ≤ u + twoPow k := by
  rcases Nat.lt_trichotomy (excessBits u) (k + 1) with h | h | h
  · have hlt := roundBits_lt_of_excessBits (Nat.le_of_lt_succ h)
    omega
  · have htop : twoPow (54 + k) = twoPow 53 * twoPow (k + 1) := by
      rw [← twoPow_add]
      congr 1
      omega
    have hq := div_lt_twoPow u
    rw [roundBits_one, htop]
    rw [h] at hq ⊢
    rw [Nat.mul_le_mul_right_iff (twoPow_pos (k + 1))]
    exact le_roundQuotient_iff hq
  · have hle := le_roundBits_of_excessBits h
    omega

/-- From half a unit below 2¹⁰²⁴ on an integer is too large. -/
theorem Magnitude.isTooLarge_iff {n : Int} :
    IsTooLarge n ↔ twoPow 1024 ≤ n.natAbs + twoPow 970 := by
  have hunits : (n * (unitsInOne : Int)).natAbs = n.natAbs * twoPow 1074 := by
    rw [Int.natAbs_mul, Int.natAbs_natCast]
    rfl
  have hfinite : IsTooLarge n ↔ unitsBound ≤ roundBits (n.natAbs * twoPow 1074) 1 := by
    rw [IsTooLarge, Binary64.ofInt, Binary64.ofUnits, Binary64.nearest, hunits]
    split
    · next h => exact iff_of_false Bool.noConfusion (Nat.not_le_of_lt h)
    · next h => exact iff_of_true rfl (Nat.le_of_not_lt h)
  have hbound : twoPow (54 + 2044) = twoPow 1024 * twoPow 1074 := twoPow_add 1024 1074
  have hhalf : twoPow 2044 = twoPow 970 * twoPow 1074 := twoPow_add 970 1074
  have hround := le_roundBits_iff (n.natAbs * twoPow 1074) 2044
  rw [hbound, hhalf, ← Nat.add_mul, Nat.mul_le_mul_right_iff (twoPow_pos 1074)] at hround
  rw [hfinite, unitsBound, ← hround, ← hbound]

/-! ## Results and faults -/

def Fails {α : Type} (x : Except ArithmeticFault α) : Prop := ∃ fault, x = .error fault

section Fails

variable {α β : Type}

theorem not_fails_ok (a : α) : ¬ Fails (.ok a) := by
  rintro ⟨fault, h⟩
  cases h

theorem fails_error (fault : ArithmeticFault) : Fails (.error fault : Except ArithmeticFault α) :=
  ⟨fault, rfl⟩

theorem fails_bind_iff {x : Except ArithmeticFault α} {f : α → Except ArithmeticFault β} :
    Fails (x >>= f) ↔ Fails x ∨ ∃ a, x = .ok a ∧ Fails (f a) := by
  cases x with
  | error fault =>
    constructor
    · intro _
      exact Or.inl (fails_error fault)
    · intro _
      exact fails_error fault
  | ok a =>
    constructor
    · intro h
      exact Or.inr ⟨a, rfl, h⟩
    · rintro (h | ⟨a', h, hf⟩)
      · exact absurd h (not_fails_ok a)
      · cases h
        exact hf

end Fails

namespace Magnitude

/-! ## Floating point -/

theorem fails_toFloat_iff {a : Magnitude} : Fails a.toFloat ↔ a.IsBeyond := by
  cases a with
  | float x =>
    constructor
    · intro h
      exact absurd h (not_fails_ok x)
    · intro h
      exact h.elim
  | int n =>
    rw [toFloat]
    split
    · next hf =>
      constructor
      · intro h
        exact absurd h (not_fails_ok _)
      · intro h
        rw [IsBeyond, IsTooLarge, hf] at h
        cases h
    · next hf =>
      constructor
      · intro _
        exact Bool.eq_false_iff.mpr hf
      · intro _
        exact fails_error _

theorem toFloat_eq_ok_of_not_beyond {a : Magnitude} (h : ¬ a.IsBeyond) :
    ∃ x, a.toFloat = .ok x := by
  cases hx : a.toFloat with
  | error fault => exact absurd (fails_toFloat_iff.mp ⟨fault, hx⟩) h
  | ok x => exact ⟨x, rfl⟩

theorem fails_inFloat_iff {f : Binary64 → Binary64 → Binary64} {a b : Magnitude} :
    Fails (inFloat f a b) ↔ a.IsBeyond ∨ b.IsBeyond := by
  rw [inFloat, fails_bind_iff, fails_toFloat_iff]
  constructor
  · rintro (h | ⟨x, -, h⟩)
    · exact Or.inl h
    · rcases fails_bind_iff.mp h with h | ⟨y, -, h⟩
      · exact Or.inr (fails_toFloat_iff.mp h)
      · exact absurd h (not_fails_ok _)
  · rintro h
    by_cases ha : a.IsBeyond
    · exact Or.inl ha
    · obtain ⟨x, hx⟩ := toFloat_eq_ok_of_not_beyond ha
      exact Or.inr ⟨x, hx, fails_bind_iff.mpr (Or.inl (fails_toFloat_iff.mpr (h.resolve_left ha)))⟩

theorem fails_mixed_iff {f : Binary64 → Binary64 → Binary64} {a b : Magnitude}
    (h : ∀ m n, a = .int m → b ≠ .int n) : Fails (inFloat f a b) ↔ Clash a b := by
  rw [fails_inFloat_iff]
  rcases a with m | x <;> rcases b with n | y
  · exact absurd rfl (h m n rfl)
  · simp [IsBeyond, Clash]
  · simp [IsBeyond, Clash]
  · simp [IsBeyond, Clash]

theorem fails_add_iff {a b : Magnitude} : Fails (a.add b) ↔ Clash a b := by
  rcases a with m | x <;> rcases b with n | y
  · simp [add, Clash, not_fails_ok]
  all_goals exact fails_mixed_iff (by simp)

theorem fails_sub_iff {a b : Magnitude} : Fails (a.sub b) ↔ Clash a b := by
  rcases a with m | x <;> rcases b with n | y
  · simp [sub, Clash, not_fails_ok]
  all_goals exact fails_mixed_iff (by simp)

theorem fails_mul_iff {a b : Magnitude} : Fails (a.mul b) ↔ Clash a b := by
  rcases a with m | x <;> rcases b with n | y
  · simp [mul, Clash, not_fails_ok]
  all_goals exact fails_mixed_iff (by simp)

theorem fails_quotient_iff {a b : Magnitude} :
    Fails (a.quotient b) ↔ Clash a b ∨ HasLargeQuotient a b := by
  rcases a with m | x <;> rcases b with n | y
  · simp only [quotient, Clash, HasLargeQuotient, false_or]
    split
    · next h => simp [h, not_fails_ok]
    · next h => simp [h, fails_error]
  all_goals
    simp only [HasLargeQuotient, or_false]
    exact fails_mixed_iff (by simp)

/-- Division by zero needs the sign of the dividend in floating point. -/
theorem fails_div_iff {a b : Magnitude} :
    Fails (a.div b) ↔ b.isZero = true ∧ a.IsBeyond ∧ a.isZero = false ∨
      b.isZero = false ∧ (Clash a b ∨ HasLargeQuotient a b) := by
  rw [div]
  cases hb : b.isZero with
  | false => simp [fails_quotient_iff]
  | true =>
    cases ha : a.isZero with
    | true => simp [not_fails_ok]
    | false =>
      simp only [Bool.false_eq_true, if_true, if_false, fails_bind_iff, fails_toFloat_iff]
      constructor
      · rintro (h | ⟨x, -, h⟩)
        · exact Or.inl ⟨trivial, h, trivial⟩
        · exact absurd h (not_fails_ok _)
      · rintro (⟨-, h, -⟩ | ⟨h, -⟩)
        · exact Or.inl h
        · cases h

/-! ## Remainders -/

theorem roundBits_pos {n : Nat} (h : 0 < n) : 0 < roundBits n 1 := by
  have hunit : twoPow (excessBits n) ≤ n := by
    refine Nat.le_trans (twoPow_le_twoPow ?_) (Nat.log2_self_le (Nat.ne_of_gt h))
    exact Nat.sub_le _ _
  have hq : 1 ≤ n / twoPow (excessBits n) := (Nat.one_le_div_iff (twoPow_pos _)).mpr hunit
  have hle := Nat.le_trans hq (le_roundQuotient n (twoPow (excessBits n)))
  simp only [roundBits, Nat.div_one, Nat.one_mul]
  exact Nat.mul_pos hle (twoPow_pos _)

theorem isZero_ofInt {n : Int} (h : n ≠ 0) : (Binary64.ofInt n).isZero = false := by
  have hpos : 0 < (n * (unitsInOne : Int)).natAbs := by
    rw [Int.natAbs_mul, Int.natAbs_natCast]
    exact Nat.mul_pos (Int.natAbs_pos.mpr h) (twoPow_pos _)
  have hround := roundBits_pos hpos
  rw [Binary64.ofInt, Binary64.ofUnits, Binary64.nearest]
  split
  · exact beq_eq_false_iff_ne.mpr (Nat.ne_of_gt hround)
  · rfl

theorem isZero_of_toFloat {a : Magnitude} {x : Binary64} (ha : a.isZero = false)
    (h : a.toFloat = .ok x) : x.isZero = false := by
  cases a with
  | float y =>
    cases h
    exact ha
  | int n =>
    rw [toFloat] at h
    split at h
    · rw [← Except.ok.inj h]
      exact isZero_ofInt (by simpa [isZero] using ha)
    · cases h

theorem isInfinite_iff_of_toFloat {a : Magnitude} {x : Binary64} (h : a.toFloat = .ok x) :
    (Magnitude.float x).IsInfinite ↔ a.IsInfinite := by
  cases a with
  | float y =>
    cases h
    rfl
  | int n =>
    rw [toFloat] at h
    split at h
    · next hf =>
      rw [Except.ok.inj h] at hf
      cases x <;> simp_all [IsInfinite, Binary64.isFinite]
    · cases h

theorem isNan_iff_of_toFloat {a : Magnitude} {x : Binary64} (h : a.toFloat = .ok x) :
    (Magnitude.float x).IsNan ↔ a.IsNan := by
  cases a with
  | float y =>
    cases h
    rfl
  | int n =>
    rw [toFloat] at h
    split at h
    · next hf =>
      rw [Except.ok.inj h] at hf
      cases x <;> simp_all [IsNan, Binary64.isFinite]
    · cases h

theorem remainder?_eq_none_iff {x y : Binary64} (hy : y.isZero = false) :
    x.remainder? y = none ↔ (Magnitude.float x).IsInfinite ∧ ¬ (Magnitude.float y).IsNan := by
  cases x <;> cases y <;> simp_all [Binary64.remainder?, IsInfinite, IsNan, Binary64.isZero]

/-- A remainder is asked of floating point, of two integers as well. -/
theorem fails_mod_iff {a b : Magnitude} :
    Fails (a.mod b) ↔
      b.isZero = false ∧ (a.IsBeyond ∨ b.IsBeyond ∨ a.IsInfinite ∧ ¬ b.IsNan) := by
  rw [mod]
  cases hb : b.isZero with
  | true => simp [not_fails_ok, pure, Except.pure]
  | false =>
    simp only [Bool.false_eq_true, if_false, true_and]
    rw [fails_bind_iff, fails_toFloat_iff]
    by_cases ha : a.IsBeyond
    · simp [ha]
    · obtain ⟨x, hx⟩ := toFloat_eq_ok_of_not_beyond ha
      simp only [ha, false_or, hx, Except.ok.injEq, exists_eq_left']
      rw [fails_bind_iff, fails_toFloat_iff]
      by_cases hb' : b.IsBeyond
      · simp [hb']
      · obtain ⟨y, hy⟩ := toFloat_eq_ok_of_not_beyond hb'
        simp only [hb', false_or, hy, Except.ok.injEq, exists_eq_left']
        rw [← isInfinite_iff_of_toFloat hx, ← isNan_iff_of_toFloat hy,
          ← remainder?_eq_none_iff (isZero_of_toFloat hb hy)]
        cases x.remainder? y with
        | none => simp [fails_error, throw, throwThe, MonadExceptOf.throw]
        | some r =>
          simp only [reduceCtorEq, iff_false]
          split <;> exact not_fails_ok _

end Magnitude

end SassData.Number
