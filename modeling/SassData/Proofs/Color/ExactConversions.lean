import Mathlib.Data.Rat.Floor
import Mathlib.Tactic.Linarith
import Mathlib.Tactic.NormNum
import Mathlib.Tactic.Ring
import SassData.Proofs.Color.ArithmeticShades

/-!
# Exact conversions

Rational arithmetic in which a division by zero leaves nothing, and nothing comes of nothing. A
result that is a number was therefore reached without dividing by zero. On numbers the formulas of
the colour spaces are those over the rational numbers.
-/

namespace SassData

set_option autoImplicit false

/-- A rational number, or nothing once something was divided by zero. -/
def Exact : Type := Option ℚ

namespace Exact

def of (q : ℚ) : Exact := some q

instance : NatCast Exact := ⟨fun n => of n⟩

instance {n : Nat} : OfNat Exact n := ⟨of (OfNat.ofNat n)⟩

instance : Add Exact := ⟨Option.map₂ (· + ·)⟩

instance : Sub Exact := ⟨Option.map₂ (· - ·)⟩

instance : Mul Exact := ⟨Option.map₂ (· * ·)⟩

def div : Exact → Exact → Exact
  | some a, some b => if b = 0 then none else some (a / b)
  | _, _ => none

/-- The remainder of the quotient rounded down. -/
def mod : Exact → Exact → Exact
  | some a, some b => if b = 0 then none else some (a - b * ⌊a / b⌋)
  | _, _ => none

instance : Div Exact := ⟨div⟩

instance : Mod Exact := ⟨mod⟩

def less : Exact → Exact → Bool
  | some a, some b => decide (a < b)
  | _, _ => false

def lessOrEqual : Exact → Exact → Bool
  | some a, some b => decide (a ≤ b)
  | _, _ => false

instance : LT Exact := ⟨fun x y => x.less y = true⟩

instance : LE Exact := ⟨fun x y => x.lessOrEqual y = true⟩

instance : DecidableLT Exact := fun x y => inferInstanceAs (Decidable (x.less y = true))

instance : DecidableLE Exact := fun x y => inferInstanceAs (Decidable (x.lessOrEqual y = true))

def floor? (x : Exact) : Option Int := Option.map Int.floor x

variable {a b : ℚ}

@[simp] theorem floor?_of (a : ℚ) : (of a).floor? = some ⌊a⌋ := rfl

@[simp] theorem natCast_eq (n : Nat) : (n : Exact) = of n := rfl

@[simp] theorem ofNat_eq (n : Nat) : (OfNat.ofNat n : Exact) = of (OfNat.ofNat n) := rfl

@[simp] theorem of_add (a b : ℚ) : of a + of b = of (a + b) := rfl

@[simp] theorem of_sub (a b : ℚ) : of a - of b = of (a - b) := rfl

@[simp] theorem of_mul (a b : ℚ) : of a * of b = of (a * b) := rfl

theorem of_div (h : b ≠ 0) : of a / of b = of (a / b) := if_neg h

theorem of_mod (h : b ≠ 0) : of a % of b = of (a - b * ⌊a / b⌋) := if_neg h

@[simp] theorem of_lt_of : of a < of b ↔ a < b := decide_eq_true_iff

@[simp] theorem of_le_of : of a ≤ of b ↔ a ≤ b := decide_eq_true_iff

end Exact

/-! ## The formulas -/

namespace Color

open Exact (of)

theorem highest_of (r g b : ℚ) : highest (of r) (of g) (of b) = of (highest r g b) := by
  simp only [highest, ← apply_ite of, Exact.of_lt_of]

theorem lowest_of (r g b : ℚ) : lowest (of r) (of g) (of b) = of (lowest r g b) := by
  simp only [lowest, ← apply_ite of, Exact.of_lt_of]

theorem highest_eq (r g b : ℚ) : highest r g b = max (max r g) b := by
  simp only [highest, max_def_lt]

theorem lowest_eq (r g b : ℚ) : lowest r g b = min (min r g) b := by
  have hmin (x y : ℚ) : (if y < x then y else x) = min x y := by
    rw [min_comm, min_def_lt]
  simp only [lowest, hmin]

theorem channelAt_of (low high hue : ℚ) :
    channelAt (of low) (of high) (of hue) = of (channelAt low high hue) := by
  simp (disch := norm_num) only [channelAt, Exact.ofNat_eq, Exact.of_div, Exact.of_add,
    Exact.of_sub, Exact.of_mul, Exact.of_lt_of, ← apply_ite of]

theorem channelsOfHsl_of (turn saturation lightness : ℚ) :
    channelsOfHsl (of turn) (of saturation) (of lightness) =
      ⟨of (channelsOfHsl turn saturation lightness).red,
        of (channelsOfHsl turn saturation lightness).green,
        of (channelsOfHsl turn saturation lightness).blue⟩ := by
  simp (disch := norm_num) only [channelsOfHsl, Exact.ofNat_eq, Exact.of_div, Exact.of_add,
    Exact.of_sub, Exact.of_mul, Exact.of_le_of, ← apply_ite of, channelAt_of]

/-- Only a positive difference of channels is divided by. -/
theorem hueOf_of (r g b : ℚ) : hueOf (of r) (of g) (of b) = of (hueOf r g b) := by
  simp only [hueOf, highest_of, lowest_of, Exact.ofNat_eq, Exact.of_sub, Exact.of_mul,
    Exact.of_le_of]
  by_cases hgrey : highest r g b - lowest r g b ≤ 0
  · simp only [hgrey, if_true]
  · have hne : highest r g b - lowest r g b ≠ 0 := fun h => hgrey (le_of_eq h)
    simp only [hgrey, if_false, Exact.of_div hne, Exact.of_add, ← apply_ite of]

theorem lightnessOf_of (r g b : ℚ) :
    lightnessOf (of r) (of g) (of b) = of (lightnessOf r g b) := by
  simp only [lightnessOf, highest_of, lowest_of, Exact.ofNat_eq, Exact.of_add, Exact.of_mul]

theorem saturationOf_of {r g b : ℚ} (hlow : 0 ≤ lowest r g b) (hhigh : highest r g b ≤ 1) :
    saturationOf (of r) (of g) (of b) = of (saturationOf r g b) := by
  simp only [saturationOf, highest_of, lowest_of, lightnessOf_of, Exact.ofNat_eq, Exact.of_add,
    Exact.of_sub, Exact.of_mul, Exact.of_le_of, Exact.of_lt_of]
  by_cases hgrey : highest r g b - lowest r g b ≤ 0
  · simp only [hgrey, if_true]
  · have hsum : highest r g b + lowest r g b ≠ 0 := by
      intro h
      linarith
    have hrest : 2 - highest r g b - lowest r g b ≠ 0 := by
      intro h
      linarith
    simp only [hgrey, if_false, Exact.of_div hsum, Exact.of_div hrest, ← apply_ite of]

theorem percentOf_of (n : Nat) : percentOf n = of (percentOf n) := by
  simp (disch := norm_num) only [percentOf, Exact.natCast_eq, Exact.ofNat_eq, Exact.of_div,
    Exact.of_mul]

theorem greyOfHwb_of {w b : ℚ} (h : w + b ≠ 0) :
    greyOfHwb (of w) (of b) = of (greyOfHwb w b) := by
  simp only [greyOfHwb, Exact.ofNat_eq, Exact.of_add, Exact.of_div h, Exact.of_mul]

theorem tinted_of (w b : ℚ) (channel : UInt8) :
    tinted (of w) (of b) channel = of (tinted w b channel) := by
  simp (disch := norm_num) only [tinted, Exact.natCast_eq, Exact.ofNat_eq, Exact.of_div,
    Exact.of_add, Exact.of_sub, Exact.of_mul]

/-! ## The conversions -/

namespace Shade

theorem clamped_of (low high x : ℚ) :
    clamped (of low) (of high) (of x) = of (clamped low high x) := by
  simp only [clamped, Exact.of_lt_of, ← apply_ite of]

theorem clamped_eq {low high x : ℚ} (hlow : low ≤ x) (hhigh : x ≤ high) :
    clamped low high x = x := by
  simp only [clamped, not_lt.mpr hlow, not_lt.mpr hhigh, if_false]

theorem percentage_of (x : ℚ) : percentage (of x) = of (percentage x) := by
  simp (disch := norm_num) only [percentage, Exact.ofNat_eq, clamped_of, Exact.of_div]

def nearestByte (x : ℚ) : UInt8 := UInt8.ofNat ⌊clamped 0 255 x + 1 / 2⌋.toNat

theorem byte?_of (x : ℚ) : byte? Exact.floor? (of x) = some (nearestByte x) := by
  simp (disch := norm_num) only [byte?, Exact.ofNat_eq, clamped_of, Exact.of_div, Exact.of_add,
    Exact.floor?_of, Option.map_some, nearestByte]

theorem make?_of (r g b alpha : ℚ) :
    make? Exact.floor? ⟨of r, of g, of b⟩ (of alpha) =
      some ⟨nearestByte r, nearestByte g, nearestByte b, of (clamped 0 1 alpha)⟩ := by
  simp only [make?, byte?_of, Exact.ofNat_eq, clamped_of]
  rfl

theorem nearestByte_eq {n : UInt8} {x : ℚ} (hlow : (n.toNat : ℚ) - 1 / 2 ≤ x)
    (hhigh : x < n.toNat + 1 / 2) : nearestByte x = n := by
  have hnonneg : (0 : ℚ) ≤ n.toNat := Nat.cast_nonneg _
  have hbyte : (n.toNat : ℚ) ≤ 255 := by
    exact_mod_cast Nat.le_of_lt_succ n.toNat_lt
  -- The bounds of a byte are no further from the channel than a half.
  have hfloor : ⌊clamped 0 255 x + 1 / 2⌋ = (n.toNat : Int) := by
    rw [Int.floor_eq_iff, clamped]
    push_cast
    split_ifs <;> constructor <;> linarith
  rw [nearestByte, hfloor, Int.toNat_natCast, UInt8.ofNat_toNat]

theorem nearestByte_between {x : ℚ} (hlow : 0 ≤ x) (hhigh : x ≤ 255) :
    ((nearestByte x).toNat : ℚ) - 1 / 2 ≤ x ∧ x < (nearestByte x).toNat + 1 / 2 := by
  have hnonneg : 0 ≤ ⌊x + 1 / 2⌋ := Int.floor_nonneg.mpr (by linarith)
  have hsmall : ⌊x + 1 / 2⌋ < 256 := Int.floor_lt.mpr (by norm_num; linarith)
  have hvalue : ((nearestByte x).toNat : ℚ) = ⌊x + 1 / 2⌋ := by
    have hmod : ⌊x + 1 / 2⌋.toNat % 2 ^ 8 = ⌊x + 1 / 2⌋.toNat := by omega
    rw [nearestByte, clamped_eq hlow hhigh, UInt8.toNat_ofNat', hmod]
    exact_mod_cast Int.toNat_of_nonneg hnonneg
  rw [hvalue]
  have hle := Int.floor_le (x + 1 / 2)
  have hlt := Int.lt_floor_add_one (x + 1 / 2)
  constructor <;> linarith

theorem fract_turn (x : ℚ) : Int.fract (360 * Int.fract x / 360) = Int.fract x := by
  rw [mul_div_cancel_left₀ _ (by norm_num), Int.fract_fract]

theorem turn_of (hue : ℚ) : of hue % 360 / 360 = of (Int.fract (hue / 360)) := by
  have hturn : (hue - 360 * ⌊hue / 360⌋) / 360 = Int.fract (hue / 360) := by
    rw [Int.fract]
    ring
  rw [Exact.ofNat_eq, Exact.of_mod (by norm_num), Exact.of_div (by norm_num), hturn]

theorem ofHsl?_of (hue saturation lightness alpha : ℚ) :
    ofHsl? Exact.floor? (of hue) (of saturation) (of lightness) (of alpha) =
      let c := channelsOfHsl (Int.fract (hue / 360)) (percentage saturation) (percentage lightness)
      some ⟨nearestByte c.red, nearestByte c.green, nearestByte c.blue,
        of (clamped 0 1 alpha)⟩ := by
  rw [ofHsl?, turn_of, percentage_of, percentage_of, channelsOfHsl_of, make?_of]

/-- Whiteness and blackness that leave no room are not both zero. -/
theorem ofHwb?_of_full {whiteness blackness : ℚ}
    (hfull : 1 ≤ percentage whiteness + percentage blackness) (hue alpha : ℚ) :
    ofHwb? Exact.floor? (of hue) (of whiteness) (of blackness) (of alpha) =
      let grey := nearestByte (greyOfHwb (percentage whiteness) (percentage blackness))
      some ⟨grey, grey, grey, of (clamped 0 1 alpha)⟩ := by
  have hne : percentage whiteness + percentage blackness ≠ 0 := by
    intro h
    linarith
  have hle : (1 : Exact) ≤ of (percentage whiteness + percentage blackness) := by
    rw [Exact.ofNat_eq, Exact.of_le_of]
    exact hfull
  rw [ofHwb?, percentage_of, percentage_of, greyOfHwb_of hne, Exact.of_add, if_pos hle, make?_of]

theorem ofHwb?_of_tinted {whiteness blackness : ℚ}
    (hroom : percentage whiteness + percentage blackness < 1) (hue alpha : ℚ) :
    ofHwb? Exact.floor? (of hue) (of whiteness) (of blackness) (of alpha) =
      let c := channelsOfHsl (Int.fract (hue / 360)) 1 (1 / 2)
      let channel (x : ℚ) :=
        nearestByte (tinted (percentage whiteness) (percentage blackness) (nearestByte x))
      some ⟨channel c.red, channel c.green, channel c.blue, of (clamped 0 1 alpha)⟩ := by
  have hfull : percentage (100 : ℚ) = 1 := by norm_num [percentage, clamped]
  have hhalf : percentage (50 : ℚ) = 1 / 2 := by norm_num [percentage, clamped]
  have hnot : ¬ (1 : Exact) ≤ of (percentage whiteness + percentage blackness) := by
    rw [Exact.ofNat_eq, Exact.of_le_of]
    exact not_le.mpr hroom
  have hbase := ofHsl?_of hue 100 50 1
  rw [hfull, hhalf] at hbase
  rw [ofHwb?, percentage_of, percentage_of, Exact.of_add, if_neg hnot, Exact.ofNat_eq,
    Exact.ofNat_eq, Exact.ofNat_eq, hbase]
  simp only [Option.bind_eq_bind, Option.bind_some, tinted_of, make?_of]

end Shade

end Color

end SassData
