/-!
# Rounding to the nearest

A quotient of natural numbers rounded to the nearest integer, a half going to the even
neighbour, and the same rule applied to the first 53 significant bits of a quotient. The second
is the rounding of binary floating point; that its result again has at most 53 significant bits
is `fits_roundBits`.
-/

namespace SassData.Number

set_option autoImplicit false

def twoPow (n : Nat) : Nat := Nat.pow 2 n

def tenPow (n : Nat) : Nat := Nat.pow 10 n

theorem twoPow_pos (n : Nat) : 0 < twoPow n := Nat.two_pow_pos n

theorem twoPow_add (m n : Nat) : twoPow (m + n) = twoPow m * twoPow n := Nat.pow_add 2 m n

theorem twoPow_le_twoPow {m n : Nat} (h : m ≤ n) : twoPow m ≤ twoPow n :=
  Nat.pow_le_pow_right (by decide) h

theorem twoPow_dvd_twoPow {m n : Nat} (h : m ≤ n) : twoPow m ∣ twoPow n := Nat.pow_dvd_pow 2 h

/-- The nearest integer to `num / den`, of two the even one. -/
def roundQuotient (num den : Nat) : Nat :=
  let q := num / den
  let r := num % den
  if den < 2 * r || (2 * r == den && q % 2 == 1) then q + 1 else q

theorem le_roundQuotient (num den : Nat) : num / den ≤ roundQuotient num den := by
  simp only [roundQuotient]
  split <;> omega

theorem roundQuotient_le (num den : Nat) : roundQuotient num den ≤ num / den + 1 := by
  simp only [roundQuotient]
  split <;> omega

@[simp] theorem roundQuotient_one (num : Nat) : roundQuotient num 1 = num := by
  simp [roundQuotient, Nat.mod_one]

/-- The bits of a number that lie below its 53 leading ones. -/
def excessBits (n : Nat) : Nat := n.log2 - 52

/-- The nearest number to `num / den` with at most 53 significant bits. -/
def roundBits (num den : Nat) : Nat :=
  let unit := twoPow (excessBits (num / den))
  roundQuotient num (den * unit) * unit

/-- At most 53 significant bits. -/
def Fits (n : Nat) : Prop := twoPow (excessBits n) ∣ n

theorem excessBits_le {n k : Nat} (h : n < twoPow (53 + k)) : excessBits n ≤ k := by
  unfold excessBits
  by_cases hn : n = 0
  · subst hn
    simp [Nat.log2_zero]
  · have := (Nat.log2_lt hn).mpr h
    omega

theorem lt_of_excessBits (n : Nat) : n < twoPow (53 + excessBits n) := by
  refine Nat.lt_of_lt_of_le Nat.lt_log2_self (twoPow_le_twoPow ?_)
  unfold excessBits
  omega

theorem fits_mul_twoPow {m k : Nat} (h : m ≤ twoPow 53) : Fits (m * twoPow k) := by
  unfold Fits
  by_cases hm : m = twoPow 53
  · subst hm
    rw [← twoPow_add]
    have hle : excessBits (twoPow (53 + k)) ≤ k + 1 :=
      excessBits_le (Nat.pow_lt_pow_right (by decide) (by omega))
    exact twoPow_dvd_twoPow (by omega)
  · have hle : excessBits (m * twoPow k) ≤ k := by
      apply excessBits_le
      rw [twoPow_add]
      exact Nat.mul_lt_mul_of_pos_right (Nat.lt_of_le_of_ne h hm) (twoPow_pos k)
    exact Nat.dvd_trans (twoPow_dvd_twoPow hle) (Nat.dvd_mul_left _ _)

theorem fits_roundBits (num den : Nat) : Fits (roundBits num den) := by
  apply fits_mul_twoPow
  refine Nat.le_trans (roundQuotient_le _ _) ?_
  rw [← Nat.div_div_eq_div_mul]
  apply Nat.div_lt_of_lt_mul
  rw [← twoPow_add, Nat.add_comm]
  exact lt_of_excessBits _

theorem roundBits_of_fits {n : Nat} (h : Fits n) : roundBits n 1 = n := by
  obtain ⟨m, hm⟩ := h
  have hpos : 0 < twoPow (excessBits n) := twoPow_pos _
  have hq : n / twoPow (excessBits n) = m := Nat.div_eq_of_eq_mul_right hpos hm
  have hr : n % twoPow (excessBits n) = 0 := by
    have := Nat.div_add_mod n (twoPow (excessBits n))
    rw [hq] at this
    omega
  simp only [roundBits, roundQuotient, Nat.div_one, Nat.one_mul, hq, hr]
  simp only [Nat.mul_zero, Nat.not_lt_zero, decide_false, Bool.false_or]
  have : ¬ (0 = twoPow (excessBits n)) := by omega
  simp only [beq_iff_eq, Bool.and_eq_true, this, false_and, if_false]
  rw [Nat.mul_comm]
  exact hm.symm

end SassData.Number
