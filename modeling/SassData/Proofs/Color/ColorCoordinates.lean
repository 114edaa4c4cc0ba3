import Mathlib.Tactic.FieldSimp
import Mathlib.Tactic.LinearCombination
import SassData.Proofs.Color.ExactConversions

/-!
# Colours from their coordinates

Read as exact arithmetic, the hue, saturation and lightness of a colour make the colour again, and
so do its hue, whiteness and blackness. A channel is a wave along the hue, of one form for all three
and shifted by thirds of a turn, so that one sector and its mirror image stand for all six.
Whiteness and blackness are mixed into a pure hue that was rounded to bytes; the mixing scales the
error of at most one half by the spread of the channels, which is below one unless the pure hue
needs no rounding.
-/

namespace SassData.Color

set_option autoImplicit false

/-! ## The wave -/

/-- The channel at any hue, one turn being one. -/
def wave (low high x : ℚ) : ℚ := channelAt low high (Int.fract x)

variable {low high x p : ℚ}

theorem wave_add_int (low high x : ℚ) (n : Int) : wave low high (x + n) = wave low high x := by
  rw [wave, wave, Int.fract_add_intCast]

theorem wave_of_between (hlow : 0 ≤ x) (hhigh : x < 1) :
    wave low high x = channelAt low high x := by
  rw [wave, Int.fract_eq_self.mpr ⟨hlow, hhigh⟩]

theorem channelAt_one (low high : ℚ) : channelAt low high 1 = channelAt low high 0 := by
  norm_num [channelAt]

theorem channelAt_eq_wave (hlow : -1 ≤ x) (hhigh : x < 2) :
    channelAt low high x = wave low high x := by
  by_cases hneg : x < 0
  · have hback : channelAt low high x = channelAt low high (x + 1) := by
      have hnot : ¬ x + 1 < 0 := by linarith
      have hnot' : ¬ 1 < x + 1 := by linarith
      simp only [channelAt, hneg, hnot, hnot', if_true, if_false]
    have hturn := wave_add_int low high x 1
    rw [Int.cast_one] at hturn
    rw [hback, ← hturn, wave_of_between (by linarith) (by linarith)]
  by_cases hbig : 1 < x
  · have hback : channelAt low high x = channelAt low high (x - 1) := by
      have hnot : ¬ x - 1 < 0 := by linarith
      have hnot' : ¬ 1 < x - 1 := by linarith
      simp only [channelAt, hneg, hbig, hnot, hnot', if_true, if_false]
    have hturn := wave_add_int low high (x - 1) 1
    rw [Int.cast_one, sub_add_cancel] at hturn
    rw [hback, hturn, wave_of_between (by linarith) (by linarith)]
  rcases eq_or_lt_of_le (not_lt.mp hbig) with hone | hone
  · have hturn := wave_add_int low high 0 1
    rw [Int.cast_one, zero_add] at hturn
    rw [hone, hturn, channelAt_one, wave_of_between (le_refl 0) one_pos]
  · exact (wave_of_between (not_lt.mp hneg) hone).symm

theorem wave_peak (hlow : -1 ≤ p) (hhigh : p ≤ 1) : wave low high (p / 6 + 1 / 3) = high := by
  rw [wave_of_between (by linarith) (by linarith), channelAt]
  have h₁ : ¬ p / 6 + 1 / 3 < 0 := by linarith
  have h₂ : ¬ 1 < p / 6 + 1 / 3 := by linarith
  have h₃ : ¬ p / 6 + 1 / 3 < 1 / 6 := by linarith
  have h₄ : p / 6 + 1 / 3 < 2 / 3 := by linarith
  simp only [h₁, h₂, h₃, h₄, if_true, if_false]
  by_cases h₅ : p / 6 + 1 / 3 < 1 / 2
  · rw [if_pos h₅]
  · rw [if_neg h₅]
    have hp : p = 1 := by linarith
    rw [hp]
    ring

theorem wave_rising (hlow : -1 ≤ p) (hhigh : p ≤ 1) :
    wave low high (p / 6) = low + (high - low) * max p 0 := by
  rcases lt_or_ge p 0 with hp | hp
  · have hturn := wave_add_int low high (p / 6) 1
    rw [Int.cast_one] at hturn
    rw [← hturn, wave_of_between (by linarith) (by linarith), channelAt, max_eq_right hp.le]
    have h₁ : ¬ p / 6 + 1 < 0 := by linarith
    have h₂ : ¬ 1 < p / 6 + 1 := by linarith
    have h₃ : ¬ p / 6 + 1 < 1 / 6 := by linarith
    have h₄ : ¬ p / 6 + 1 < 1 / 2 := by linarith
    have h₅ : ¬ p / 6 + 1 < 2 / 3 := by linarith
    simp only [h₁, h₂, h₃, h₄, h₅, if_false]
    ring
  · rw [wave_of_between (by linarith) (by linarith), channelAt, max_eq_left hp]
    have h₁ : ¬ p / 6 < 0 := by linarith
    have h₂ : ¬ 1 < p / 6 := by linarith
    have h₄ : p / 6 < 1 / 2 := by linarith
    simp only [h₁, h₂, h₄, if_true, if_false]
    by_cases h₃ : p / 6 < 1 / 6
    · rw [if_pos h₃]
      ring
    · rw [if_neg h₃]
      have hp : p = 1 := by linarith
      rw [hp]
      ring

theorem wave_falling (hlow : -1 ≤ p) (hhigh : p ≤ 1) :
    wave low high (p / 6 - 1 / 3) = low + (high - low) * max (-p) 0 := by
  have hturn := wave_add_int low high (p / 6 - 1 / 3) 1
  rw [Int.cast_one] at hturn
  rw [← hturn, wave_of_between (by linarith) (by linarith), channelAt]
  have h₁ : ¬ p / 6 - 1 / 3 + 1 < 0 := by linarith
  have h₂ : ¬ 1 < p / 6 - 1 / 3 + 1 := by linarith
  have h₃ : ¬ p / 6 - 1 / 3 + 1 < 1 / 6 := by linarith
  have h₄ : ¬ p / 6 - 1 / 3 + 1 < 1 / 2 := by linarith
  simp only [h₁, h₂, h₃, h₄, if_false]
  rcases lt_or_ge p 0 with hp | hp
  · have h₅ : p / 6 - 1 / 3 + 1 < 2 / 3 := by linarith
    rw [if_pos h₅, max_eq_left (by linarith)]
    ring
  · have h₅ : ¬ p / 6 - 1 / 3 + 1 < 2 / 3 := by linarith
    rw [if_neg h₅, max_eq_right (by linarith)]
    ring

/-- With the brightest channel given, the difference of the other two is the way to the one that is
not the darkest. -/
theorem wave_sector {x y z : ℚ} (hy : y ≤ x) (hz : z ≤ x) (hd : min y z < x) :
    wave (min y z) x ((y - z) / (x - min y z) / 6 + 1 / 3) = x ∧
      wave (min y z) x ((y - z) / (x - min y z) / 6) = y ∧
      wave (min y z) x ((y - z) / (x - min y z) / 6 - 1 / 3) = z := by
  have hpos : 0 < x - min y z := sub_pos.mpr hd
  have hlow : -1 ≤ (y - z) / (x - min y z) := by
    rw [le_div_iff₀ hpos]
    rcases min_cases y z with h | h <;> linarith
  have hhigh : (y - z) / (x - min y z) ≤ 1 := by
    rw [div_le_one hpos]
    rcases min_cases y z with h | h <;> linarith
  have hscale : (x - min y z) * ((y - z) / (x - min y z)) = y - z :=
    mul_div_cancel₀ _ (ne_of_gt hpos)
  have hscale' : (x - min y z) * (-((y - z) / (x - min y z))) = z - y := by
    rw [mul_neg, hscale, neg_sub]
  rw [wave_peak hlow hhigh, wave_rising hlow hhigh, wave_falling hlow hhigh,
    mul_max_of_nonneg _ _ hpos.le, mul_max_of_nonneg _ _ hpos.le, hscale, hscale', mul_zero]
  refine ⟨rfl, ?_, ?_⟩
  · rcases le_total y z with h | h
    · rw [min_eq_left h, max_eq_right (sub_nonpos.mpr h), add_zero]
    · rw [min_eq_right h, max_eq_left (sub_nonneg.mpr h), add_sub_cancel]
  · rcases le_total y z with h | h
    · rw [min_eq_left h, max_eq_left (sub_nonneg.mpr h), add_sub_cancel]
    · rw [min_eq_right h, max_eq_right (sub_nonpos.mpr h), add_zero]

theorem wave_self (low x : ℚ) : wave low low x = low := by
  simp only [wave, channelAt, sub_self, zero_mul, add_zero, ite_self]

/-! ## Hue, saturation and lightness -/

variable {r g b : ℚ}

theorem lowest_le (r g b : ℚ) : lowest r g b ≤ r ∧ lowest r g b ≤ g ∧ lowest r g b ≤ b := by
  rw [lowest_eq]
  exact ⟨le_trans (min_le_left _ _) (min_le_left _ _),
    le_trans (min_le_left _ _) (min_le_right _ _), min_le_right _ _⟩

theorem le_highest (r g b : ℚ) : r ≤ highest r g b ∧ g ≤ highest r g b ∧ b ≤ highest r g b := by
  rw [highest_eq]
  exact ⟨le_trans (le_max_left _ _) (le_max_left _ _),
    le_trans (le_max_right _ _) (le_max_left _ _), le_max_right _ _⟩

theorem lowest_le_highest (r g b : ℚ) : lowest r g b ≤ highest r g b :=
  le_trans (lowest_le r g b).1 (le_highest r g b).1

/-- At the hue of a colour the waves are its channels. -/
theorem wave_hueOf (r g b : ℚ) :
    wave (lowest r g b) (highest r g b) (hueOf r g b / 360 + 1 / 3) = r ∧
      wave (lowest r g b) (highest r g b) (hueOf r g b / 360) = g ∧
      wave (lowest r g b) (highest r g b) (hueOf r g b / 360 - 1 / 3) = b := by
  obtain ⟨hred, hgreen, hblue⟩ := le_highest r g b
  have hturn (low high x : ℚ) : wave low high (x + 1) = wave low high x := by
    rw [← Int.cast_one, wave_add_int]
  by_cases hgrey : highest r g b - lowest r g b ≤ 0
  · have hsame : lowest r g b = highest r g b :=
      le_antisymm (lowest_le_highest r g b) (sub_nonpos.mp hgrey)
    obtain ⟨hred', hgreen', hblue'⟩ := lowest_le r g b
    rw [hsame] at hred' hgreen' hblue' ⊢
    rw [wave_self, wave_self, wave_self]
    exact ⟨le_antisymm hred' hred, le_antisymm hgreen' hgreen, le_antisymm hblue' hblue⟩
  have hspread : lowest r g b < highest r g b := sub_pos.mp (not_le.mp hgrey)
  have hlow : lowest r g b = min (min r g) b := lowest_eq r g b
  simp only [hueOf, hgrey, if_false]
  by_cases hr : highest r g b ≤ r
  · rw [le_antisymm hr hred] at hgreen hblue hspread ⊢
    rw [min_assoc, min_eq_right (le_trans (min_le_left _ _) hgreen)] at hlow
    rw [hlow] at hspread ⊢
    have hangle : 60 * (g - b) / (r - min g b) / 360 = (g - b) / (r - min g b) / 6 := by ring
    rw [if_pos (le_refl r), hangle]
    exact wave_sector hgreen hblue hspread
  rw [if_neg hr]
  by_cases hg : highest r g b ≤ g
  · rw [if_pos hg]
    rw [le_antisymm hg hgreen] at hred hblue hspread ⊢
    rw [min_eq_left hred, min_comm] at hlow
    rw [hlow] at hspread ⊢
    obtain ⟨hpeak, hnext, hprevious⟩ := wave_sector hblue hred hspread
    generalize hp : (b - r) / (g - min b r) / 6 = p at *
    have hangle : (120 + 60 * (b - r) / (g - min b r)) / 360 = p + 1 / 3 := by
      rw [← hp]
      ring
    have hfirst : p + 1 / 3 + 1 / 3 = p - 1 / 3 + 1 := by ring
    have hlast : p + 1 / 3 - 1 / 3 = p := by ring
    rw [hangle, hfirst, hlast, hturn]
    exact ⟨hprevious, hpeak, hnext⟩
  · rw [if_neg hg]
    have hb : highest r g b = b := by
      rw [highest_eq] at hr hg ⊢
      grind
    rw [hb] at hred hgreen hspread ⊢
    rw [min_eq_left (le_trans (min_le_left _ _) hred)] at hlow
    rw [hlow] at hspread ⊢
    obtain ⟨hpeak, hnext, hprevious⟩ := wave_sector hred hgreen hspread
    generalize hp : (r - g) / (b - min r g) / 6 = p at *
    have hangle : (240 + 60 * (r - g) / (b - min r g)) / 360 = p - 1 / 3 + 1 := by
      rw [← hp]
      ring
    have hfirst : p - 1 / 3 + 1 + 1 / 3 = p + 1 := by ring
    have hlast : p - 1 / 3 + 1 - 1 / 3 = p + 1 / 3 := by ring
    rw [hangle, hfirst, hlast, hturn, hturn]
    exact ⟨hnext, hprevious, hpeak⟩

/-- The saturation is the spread of the channels in proportion to the room that the lightness
leaves. -/
theorem saturationOf_mul (hlow : 0 ≤ lowest r g b) (hhigh : highest r g b ≤ 1) :
    (highest r g b + lowest r g b ≤ 1 → saturationOf r g b / 100 *
      (highest r g b + lowest r g b) = highest r g b - lowest r g b) ∧
    (1 ≤ highest r g b + lowest r g b → saturationOf r g b / 100 *
      (2 - highest r g b - lowest r g b) = highest r g b - lowest r g b) := by
  have hle := lowest_le_highest r g b
  have hfifty : lightnessOf r g b < 50 ↔ highest r g b + lowest r g b < 1 := by
    rw [lightnessOf]
    constructor <;> intro h <;> linarith
  simp only [saturationOf, hfifty]
  generalize highest r g b = high at *
  generalize lowest r g b = low at *
  by_cases hgrey : high - low ≤ 0
  · have hsame : high - low = 0 := by linarith
    rw [if_pos hgrey, hsame, zero_div, zero_mul, zero_mul]
    exact ⟨fun _ => rfl, fun _ => rfl⟩
  · have hquotient (room : ℚ) (h : room ≠ 0) :
        100 * (high - low) / room / 100 * room = high - low := by
      field_simp
    have hsum : high + low ≠ 0 := by
      intro h
      linarith
    have hrest : 2 - high - low ≠ 0 := by
      intro h
      linarith
    rw [if_neg hgrey]
    constructor
    · intro hdark
      split_ifs with hlt
      · exact hquotient _ hsum
      · have hsame : high + low = 2 - high - low := by linarith
        rw [hsame]
        exact hquotient _ hrest
    · intro hbright
      rw [if_neg (not_lt.mpr hbright)]
      exact hquotient _ hrest

theorem channelsOfHsl_eq (turn : ℚ) (hlow : 0 ≤ lowest r g b) (hhigh : highest r g b ≤ 1) :
    channelsOfHsl turn (saturationOf r g b / 100) (lightnessOf r g b / 100) =
      ⟨channelAt (lowest r g b) (highest r g b) (turn + 1 / 3) * 255,
        channelAt (lowest r g b) (highest r g b) turn * 255,
        channelAt (lowest r g b) (highest r g b) (turn - 1 / 3) * 255⟩ := by
  obtain ⟨hdark, hbright⟩ := saturationOf_mul hlow hhigh
  have hlight : lightnessOf r g b / 100 = (highest r g b + lowest r g b) / 2 := by
    rw [lightnessOf]
    ring
  have hpeak : (if (highest r g b + lowest r g b) / 2 ≤ 1 / 2 then
      (highest r g b + lowest r g b) / 2 * (saturationOf r g b / 100 + 1)
      else (highest r g b + lowest r g b) / 2 + saturationOf r g b / 100 -
        (highest r g b + lowest r g b) / 2 * (saturationOf r g b / 100)) = highest r g b := by
    split_ifs with h
    · linear_combination hdark (by linarith) / 2
    · linear_combination hbright (by linarith) / 2
  have hbase : (highest r g b + lowest r g b) / 2 * 2 - highest r g b = lowest r g b := by ring
  simp only [channelsOfHsl, hlight, hpeak, hbase]

theorem saturationOf_between (hlow : 0 ≤ lowest r g b) (hhigh : highest r g b ≤ 1) :
    0 ≤ saturationOf r g b ∧ saturationOf r g b ≤ 100 := by
  obtain ⟨hdark, hbright⟩ := saturationOf_mul hlow hhigh
  by_cases hgrey : highest r g b - lowest r g b ≤ 0
  · simp only [saturationOf, hgrey, if_true]
    norm_num
  have hproportion {room : ℚ} (hle : highest r g b - lowest r g b ≤ room)
      (h : saturationOf r g b / 100 * room = highest r g b - lowest r g b) :
      0 ≤ saturationOf r g b ∧ saturationOf r g b ≤ 100 := by
    have hpos : 0 < room := by linarith
    have hquotient := eq_div_of_mul_eq (ne_of_gt hpos) h
    have hnonneg : 0 ≤ (highest r g b - lowest r g b) / room :=
      div_nonneg (le_of_not_ge hgrey) hpos.le
    have hone : (highest r g b - lowest r g b) / room ≤ 1 := (div_le_one hpos).mpr hle
    constructor <;> linarith
  rcases le_total (highest r g b + lowest r g b) 1 with hsum | hsum
  · exact hproportion (by linarith) (hdark hsum)
  · exact hproportion (by linarith) (hbright hsum)

theorem lightnessOf_between (hlow : 0 ≤ lowest r g b) (hhigh : highest r g b ≤ 1) :
    0 ≤ lightnessOf r g b ∧ lightnessOf r g b ≤ 100 := by
  have hle := lowest_le_highest r g b
  rw [lightnessOf]
  constructor <;> linarith

theorem channelAt_fract {y : ℚ} (low high x : ℚ) (hlow : -1 ≤ y) (hhigh : y ≤ 1) :
    channelAt low high (Int.fract x + y) = wave low high (x + y) := by
  have hnonneg := Int.fract_nonneg x
  have hlt := Int.fract_lt_one x
  have hturn := wave_add_int low high (Int.fract x + y) ⌊x⌋
  rw [add_right_comm, Int.fract_add_floor] at hturn
  rw [hturn, channelAt_eq_wave (by linarith) (by linarith)]

/-! ## Coordinates of a colour -/

namespace Shade

open Exact (of)

def fractions {α : Type} (c : Shade α) : Channels ℚ :=
  ⟨c.red.toNat / 255, c.green.toNat / 255, c.blue.toNat / 255⟩

def brightest {α : Type} (c : Shade α) : ℚ :=
  highest c.fractions.red c.fractions.green c.fractions.blue

def darkest {α : Type} (c : Shade α) : ℚ :=
  lowest c.fractions.red c.fractions.green c.fractions.blue

/-- The hue in degrees, not reduced to one turn. -/
def angle {α : Type} (c : Shade α) : ℚ := hueOf c.fractions.red c.fractions.green c.fractions.blue

variable (c : Shade Exact)

theorem scaled_of : c.scaled = ⟨of c.fractions.red, of c.fractions.green, of c.fractions.blue⟩ := by
  simp (disch := norm_num) only [scaled, fractions, Exact.natCast_eq, Exact.ofNat_eq, Exact.of_div]

theorem fraction_between (n : UInt8) : 0 ≤ (n.toNat : ℚ) / 255 ∧ (n.toNat : ℚ) / 255 ≤ 1 := by
  have hbyte : (n.toNat : ℚ) ≤ 255 := by
    exact_mod_cast Nat.le_of_lt_succ n.toNat_lt
  constructor
  · positivity
  · linarith

theorem darkest_nonneg : 0 ≤ c.darkest := by
  rw [darkest, lowest_eq]
  exact le_min (le_min (fraction_between _).1 (fraction_between _).1) (fraction_between _).1

theorem brightest_le_one : c.brightest ≤ 1 := by
  rw [brightest, highest_eq]
  exact max_le (max_le (fraction_between _).2 (fraction_between _).2) (fraction_between _).2

theorem darkest_le_brightest : c.darkest ≤ c.brightest := lowest_le_highest _ _ _

theorem hue_of : c.hue = of (360 * Int.fract (c.angle / 360)) := by
  have hturn : c.angle - 360 * ⌊c.angle / 360⌋ = 360 * Int.fract (c.angle / 360) := by
    rw [Int.fract]
    ring
  rw [hue, scaled_of, hueOf_of, Exact.ofNat_eq, Exact.of_mod (by norm_num), ← hturn, angle]

theorem saturation_of : c.saturation =
    of (saturationOf c.fractions.red c.fractions.green c.fractions.blue) := by
  rw [saturation, scaled_of, saturationOf_of c.darkest_nonneg c.brightest_le_one]

theorem lightness_of : c.lightness =
    of (lightnessOf c.fractions.red c.fractions.green c.fractions.blue) := by
  rw [lightness, scaled_of, lightnessOf_of]

theorem whiteness_of : c.whiteness = of (c.darkest * 100) := by
  rw [whiteness, percentOf_of, percentOf, darkest, lowest_eq, fractions]
  push_cast
  rw [min_div_div_right (by norm_num), min_div_div_right (by norm_num), min_assoc]

theorem blackness_of : c.blackness = of (100 - c.brightest * 100) := by
  rw [blackness, percentOf_of, percentOf, brightest, highest_eq, fractions, Exact.ofNat_eq,
    Exact.of_sub]
  push_cast
  rw [max_div_div_right (by norm_num), max_div_div_right (by norm_num), max_assoc]

theorem channelAt_hue :
    channelAt c.darkest c.brightest (Int.fract (c.angle / 360) + 1 / 3) = c.fractions.red ∧
      channelAt c.darkest c.brightest (Int.fract (c.angle / 360)) = c.fractions.green ∧
      channelAt c.darkest c.brightest (Int.fract (c.angle / 360) - 1 / 3) = c.fractions.blue := by
  have hmiddle := channelAt_fract c.darkest c.brightest (c.angle / 360) (y := 0) (by norm_num)
    (by norm_num)
  have hlast := channelAt_fract c.darkest c.brightest (c.angle / 360) (y := -(1 / 3)) (by norm_num)
    (by norm_num)
  rw [add_zero, add_zero] at hmiddle
  rw [← sub_eq_add_neg, ← sub_eq_add_neg] at hlast
  rw [channelAt_fract _ _ _ (by norm_num) (by norm_num), hmiddle, hlast]
  exact wave_hueOf _ _ _

theorem nearestByte_fraction (n : UInt8) : nearestByte ((n.toNat : ℚ) / 255 * 255) = n := by
  rw [div_mul_cancel₀ _ (by norm_num)]
  exact nearestByte_eq (by linarith) (by linarith)

theorem ofHsl?_coordinates (alpha : ℚ) :
    ofHsl? Exact.floor? c.hue c.saturation c.lightness (of alpha) =
      some ⟨c.red, c.green, c.blue, of (clamped 0 1 alpha)⟩ := by
  have hsaturation := saturationOf_between c.darkest_nonneg c.brightest_le_one
  have hlightness := lightnessOf_between c.darkest_nonneg c.brightest_le_one
  obtain ⟨hred, hgreen, hblue⟩ := c.channelAt_hue
  rw [hue_of, saturation_of, lightness_of, ofHsl?_of, fract_turn]
  rw [percentage, percentage, clamped_eq hsaturation.1 hsaturation.2,
    clamped_eq hlightness.1 hlightness.2, channelsOfHsl_eq _ c.darkest_nonneg c.brightest_le_one]
  rw [darkest, brightest] at hred hgreen hblue
  simp only [hred, hgreen, hblue]
  rw [fractions, nearestByte_fraction, nearestByte_fraction, nearestByte_fraction]

/-- The error of a rounded pure hue is scaled by the spread of the channels, which leaves less than
a half: a spread of one needs no rounding. -/
theorem nearestByte_tinted {n : UInt8} {low high pure : ℚ} (hlow : 0 ≤ low) (hhigh : high ≤ 1)
    (hspread : low < high) (hn : low ≤ n.toNat / 255) (hn' : (n.toNat : ℚ) / 255 ≤ high)
    (hpure : (high - low) * pure = n.toNat - 255 * low) :
    nearestByte (tinted low (1 - high) (nearestByte pure)) = n := by
  have hpos : 0 < high - low := sub_pos.mpr hspread
  have hnonneg : 0 ≤ pure := by
    refine le_of_mul_le_mul_left ?_ hpos
    linarith
  have hle : pure ≤ 255 := by
    refine le_of_mul_le_mul_left ?_ hpos
    linarith
  obtain ⟨hbelow, habove⟩ := nearestByte_between hnonneg hle
  have hvalue : tinted low (1 - high) (nearestByte pure) =
      n.toNat + (high - low) * ((nearestByte pure).toNat - pure) := by
    rw [tinted]
    linear_combination hpure
  rw [hvalue]
  rcases eq_or_lt_of_le (show high - low ≤ 1 by linarith) with hone | hone
  · have hexact : pure = n.toNat := by
      rw [hone] at hpure
      linarith
    have hbyte : nearestByte pure = n := by
      rw [hexact]
      exact nearestByte_eq (by linarith) (by linarith)
    rw [hbyte, hexact, sub_self, mul_zero]
    exact nearestByte_eq (by linarith) (by linarith)
  · apply nearestByte_eq <;> nlinarith

theorem channelAt_scale (low high x : ℚ) :
    channelAt low high x = low + (high - low) * channelAt 0 1 x := by
  simp only [channelAt]
  split_ifs <;> ring

theorem channelsOfHsl_pure (turn : ℚ) :
    channelsOfHsl turn 1 (1 / 2) =
      ⟨channelAt 0 1 (turn + 1 / 3) * 255, channelAt 0 1 turn * 255,
        channelAt 0 1 (turn - 1 / 3) * 255⟩ := by
  norm_num [channelsOfHsl]

theorem ofHwb?_coordinates (alpha : ℚ) :
    ofHwb? Exact.floor? c.hue c.whiteness c.blackness (of alpha) =
      some ⟨c.red, c.green, c.blue, of (clamped 0 1 alpha)⟩ := by
  have hlow := c.darkest_nonneg
  have hhigh := c.brightest_le_one
  have hle := c.darkest_le_brightest
  have hwhiteness : percentage (c.darkest * 100) = c.darkest := by
    rw [percentage, clamped_eq (by linarith) (by linarith), mul_div_cancel_right₀ _ (by norm_num)]
  have hblackness : percentage (100 - c.brightest * 100) = 1 - c.brightest := by
    rw [percentage, clamped_eq (by linarith) (by linarith)]
    ring
  obtain ⟨hred, hgreen, hblue⟩ := lowest_le c.fractions.red c.fractions.green c.fractions.blue
  obtain ⟨hred', hgreen', hblue'⟩ := le_highest c.fractions.red c.fractions.green c.fractions.blue
  rw [hue_of, whiteness_of, blackness_of]
  rcases eq_or_lt_of_le hle with hgrey | hspread
  · have hfull : 1 ≤ percentage (c.darkest * 100) + percentage (100 - c.brightest * 100) := by
      rw [hwhiteness, hblackness]
      linarith
    have hvalue : greyOfHwb c.darkest (1 - c.brightest) = c.darkest * 255 := by
      rw [greyOfHwb, hgrey, add_sub_cancel, div_one]
    have hchannel {n : UInt8} (hn : c.darkest ≤ n.toNat / 255) (hn' : n.toNat / 255 ≤ c.brightest) :
        nearestByte (c.darkest * 255) = n := by
      rw [le_antisymm hn (hgrey ▸ hn'), nearestByte_fraction]
    simp only [ofHwb?_of_full hfull, hwhiteness, hblackness, hvalue]
    refine congrArg some ?_
    rw [Shade.mk.injEq]
    exact ⟨hchannel hred hred', hchannel hgreen hgreen', hchannel hblue hblue', rfl⟩
  · have hroom : percentage (c.darkest * 100) + percentage (100 - c.brightest * 100) < 1 := by
      rw [hwhiteness, hblackness]
      linarith
    obtain ⟨hfirst, hmiddle, hlast⟩ := c.channelAt_hue
    have hchannel {n : UInt8} {x : ℚ} (hn : c.darkest ≤ n.toNat / 255)
        (hn' : n.toNat / 255 ≤ c.brightest)
        (hx : channelAt c.darkest c.brightest x = n.toNat / 255) :
        nearestByte (tinted c.darkest (1 - c.brightest) (nearestByte (channelAt 0 1 x * 255))) =
          n := by
      rw [channelAt_scale] at hx
      exact nearestByte_tinted hlow hhigh hspread hn hn' (by linear_combination 255 * hx)
    simp only [ofHwb?_of_tinted hroom, hwhiteness, hblackness, fract_turn, channelsOfHsl_pure,
      hchannel hred hred' hfirst, hchannel hgreen hgreen' hmiddle, hchannel hblue hblue' hlast]

/-- The coordinates of a colour are numbers in their ranges, so nothing was divided by zero, and
with the given opacity they make the colour again. -/
structure IsRebuilt (alpha : Exact) : Prop where
  hue : ∃ h, c.hue = of h ∧ 0 ≤ h ∧ h < 360
  saturation : ∃ s, c.saturation = of s ∧ 0 ≤ s ∧ s ≤ 100
  lightness : ∃ l, c.lightness = of l ∧ 0 ≤ l ∧ l ≤ 100
  whiteness : ∃ w, c.whiteness = of w ∧ 0 ≤ w ∧ w ≤ 100
  blackness : ∃ b, c.blackness = of b ∧ 0 ≤ b ∧ b ≤ 100
  ofHsl : ofHsl? Exact.floor? c.hue c.saturation c.lightness alpha = some c
  ofHwb : ofHwb? Exact.floor? c.hue c.whiteness c.blackness alpha = some c

theorem isRebuilt_of {alpha : ℚ} (h : c.alpha = of (clamped 0 1 alpha)) :
    c.IsRebuilt (of alpha) := by
  have hlow := c.darkest_nonneg
  have hhigh := c.brightest_le_one
  have hle := c.darkest_le_brightest
  have hturn := Int.fract_nonneg (c.angle / 360)
  have hturn' := Int.fract_lt_one (c.angle / 360)
  have hsame : (⟨c.red, c.green, c.blue, of (clamped 0 1 alpha)⟩ : Shade Exact) = c := by
    rw [← h]
  refine ⟨⟨_, c.hue_of, by linarith, by linarith⟩, ⟨_, c.saturation_of, ?_⟩,
    ⟨_, c.lightness_of, ?_⟩, ⟨_, c.whiteness_of, by linarith, by linarith⟩,
    ⟨_, c.blackness_of, by linarith, by linarith⟩, ?_, ?_⟩
  · exact saturationOf_between hlow hhigh
  · exact lightnessOf_between hlow hhigh
  · rw [ofHsl?_coordinates, hsame]
  · rw [ofHwb?_coordinates, hsame]

end Shade

/-- Every colour is made again from its coordinates with its opacity, given within range or not,
when the conversions are read as exact arithmetic. -/
theorem isRebuilt (red green blue : UInt8) (alpha : ℚ) :
    FormulasAreConversions ∧
      let c : Shade Exact := ⟨red, green, blue, Shade.clamped 0 1 (Exact.of alpha)⟩
      c.IsRebuilt (Exact.of alpha) ∧ c.IsRebuilt c.alpha := by
  have hclamped : Shade.clamped 0 1 (Exact.of alpha) = Exact.of (Shade.clamped 0 1 alpha) := by
    rw [Exact.ofNat_eq, Exact.ofNat_eq, Shade.clamped_of]
  have hidempotent : Shade.clamped 0 1 (Shade.clamped 0 1 alpha) = Shade.clamped 0 1 alpha := by
    apply Shade.clamped_eq <;> rw [Shade.clamped] <;> split_ifs <;> linarith
  refine ⟨formulasAreConversions, Shade.isRebuilt_of _ hclamped, ?_⟩
  simp only [hclamped]
  exact Shade.isRebuilt_of _ (by rw [hidempotent])

end SassData.Color
