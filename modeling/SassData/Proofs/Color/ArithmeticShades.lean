import SassData.Proofs.Color.ColorRange

/-!
# Conversions over any arithmetic

What a colour derives from its channels and how a colour is made from hue, saturation and lightness
or from hue, whiteness and blackness, over any arithmetic with an order, remainders and rounding
down. Floating point is one of them, and with it these are the conversions of colours.
-/

namespace SassData.Color

set_option autoImplicit false

open Number (Binary64 Magnitude unitsInOne twoPow)

/-- A colour whose opacity is a number of some arithmetic. -/
structure Shade (α : Type) where
  red : UInt8
  green : UInt8
  blue : UInt8
  alpha : α

namespace Shade

section Conversions

variable {α : Type} [Add α] [Sub α] [Mul α] [Div α] [Mod α] [LT α] [LE α] [DecidableLT α]
  [DecidableLE α] [NatCast α] [∀ n, OfNat α n] (floor? : α → Option Int)

def scaled (c : Shade α) : Channels α :=
  ⟨(c.red.toNat : α) / 255, (c.green.toNat : α) / 255, (c.blue.toNat : α) / 255⟩

def hue (c : Shade α) : α := hueOf c.scaled.red c.scaled.green c.scaled.blue % 360

def saturation (c : Shade α) : α := saturationOf c.scaled.red c.scaled.green c.scaled.blue

def lightness (c : Shade α) : α := lightnessOf c.scaled.red c.scaled.green c.scaled.blue

def whiteness (c : Shade α) : α :=
  percentOf (min c.red.toNat (min c.green.toNat c.blue.toNat))

def blackness (c : Shade α) : α :=
  100 - percentOf (max c.red.toNat (max c.green.toNat c.blue.toNat))

def clamped (low high x : α) : α :=
  let raised := if x < low then low else x
  if high < raised then high else raised

def percentage (x : α) : α := clamped 0 100 x / 100

/-- The byte that a channel is rounded to, a half upwards. -/
def byte? (x : α) : Option UInt8 :=
  (floor? (clamped 0 255 x + 1 / 2)).map fun n => UInt8.ofNat n.toNat

def make? (c : Channels α) (alpha : α) : Option (Shade α) := do
  let red ← byte? floor? c.red
  let green ← byte? floor? c.green
  let blue ← byte? floor? c.blue
  return ⟨red, green, blue, clamped 0 1 alpha⟩

def ofHsl? (hue saturation lightness alpha : α) : Option (Shade α) :=
  make? floor?
    (channelsOfHsl (hue % 360 / 360) (percentage saturation) (percentage lightness)) alpha

def ofHwb? (hue whiteness blackness alpha : α) : Option (Shade α) := do
  let w := percentage whiteness
  let b := percentage blackness
  if 1 ≤ w + b then
    let grey := greyOfHwb w b
    make? floor? ⟨grey, grey, grey⟩ alpha
  else
    let base ← ofHsl? floor? hue 100 50 1
    make? floor? ⟨tinted w b base.red, tinted w b base.green, tinted w b base.blue⟩ alpha

end Conversions

end Shade

end SassData.Color

/-! ## Quotients in lower terms -/

namespace SassData.Number

theorem roundQuotient_mul_right (num den : Nat) {k : Nat} (hk : 0 < k) :
    roundQuotient (num * k) (den * k) = roundQuotient num den := by
  have hlt : den * k < 2 * (num % den * k) ↔ den < 2 * (num % den) := by
    rw [← Nat.mul_assoc, Nat.mul_lt_mul_right hk]
  have heq : 2 * (num % den * k) = den * k ↔ 2 * (num % den) = den := by
    rw [← Nat.mul_assoc, Nat.mul_left_inj (Nat.ne_of_gt hk)]
  simp only [roundQuotient, Nat.mul_div_mul_right _ _ hk, Nat.mul_mod_mul_right, hlt,
    Bool.or_eq_true, Bool.and_eq_true, beq_iff_eq, decide_eq_true_eq, heq]

theorem roundBits_mul_right (num den : Nat) {k : Nat} (hk : 0 < k) :
    roundBits (num * k) (den * k) = roundBits num den := by
  rw [roundBits, roundBits, Nat.mul_div_mul_right _ _ hk, Nat.mul_right_comm,
    roundQuotient_mul_right _ _ hk]

namespace Binary64

theorem nearest_mul_right (negative : Bool) (num den : Nat) {k : Nat} (hk : 0 < k) :
    nearest negative (num * k) (den * k) = nearest negative num den := by
  simp only [nearest, roundBits_mul_right _ _ hk]

theorem finite_div {s t : Bool} {u v : Nat} (hu : InFormat u) (hv : InFormat v) (h : v ≠ 0) :
    finite s u hu / finite t v hv = nearest (s != t) (u * unitsInOne) v := by
  have hne : (v == 0) = false := beq_false_of_ne h
  have hdiv (x y : Binary64) : x / y = div x y := rfl
  rw [hdiv, div, hne, if_neg Bool.false_ne_true]

theorem natCast_eq_ofInt (k : Nat) : (k : Binary64) = ofInt k := by
  have hcast (f : Nat → Binary64) : @Nat.cast Binary64 ⟨f⟩ k = f k := rfl
  exact hcast fun n => ofInt n

theorem natCast_eq {k : Nat} (h : InFormat (k * unitsInOne)) :
    (k : Binary64) = finite false (k * unitsInOne) h := by
  have habs : ((k : Int) * (unitsInOne : Int)).natAbs = k * unitsInOne := by
    rw [Int.natAbs_mul, Int.natAbs_natCast, Int.natAbs_natCast]
  have hsign : decide ((k : Int) * (unitsInOne : Int) < 0) = false :=
    decide_eq_false (Int.not_lt.mpr (Int.mul_nonneg (Int.natCast_nonneg _) (Int.natCast_nonneg _)))
  rw [natCast_eq_ofInt, ofInt_eq_of_inFormat h habs, hsign]

/-- Dividing integers that are floating-point numbers rounds their quotient. -/
theorem natCast_div {n m : Nat} (hn : n ≤ twoPow 53) (hm : 0 < m) (hm' : m ≤ twoPow 53) :
    (n : Binary64) / (m : Binary64) = ofQuotient n m := by
  have hunit : 0 < unitsInOne := twoPow_pos 1074
  have hnum : InFormat (n * unitsInOne) := inFormat_mul_twoPow hn (Nat.le_refl _)
  have hden : InFormat (m * unitsInOne) := inFormat_mul_twoPow hm' (Nat.le_refl _)
  rw [natCast_eq hnum, natCast_eq hden, finite_div hnum hden (Nat.ne_of_gt (Nat.mul_pos hm hunit)),
    ofQuotient_natCast, nearest_mul_right _ _ _ hunit, bne_self_eq_false]

end Binary64

/-- An integer that is a floating-point number is compared as one. -/
theorem Magnitude.float_lt_int (x : Binary64) {n : Int} (hn : n.natAbs ≤ twoPow 53) :
    (float x).lt (int n) = true ↔ x < .ofInt n := by
  obtain ⟨hfinite, hunits⟩ := Binary64.signedUnits_ofInt hn
  cases x with
  | nan => exact Iff.rfl
  | infinity s =>
    obtain ⟨t, v, hv, hy⟩ := Binary64.eq_finite hfinite
    rw [hy]
    exact Iff.rfl
  | finite s u hu =>
    rw [Binary64.lt_iff rfl hfinite, hunits]
    exact decide_eq_true_iff

theorem Magnitude.int_lt_float (x : Binary64) {n : Int} (hn : n.natAbs ≤ twoPow 53) :
    (int n).lt (float x) = true ↔ .ofInt n < x := by
  obtain ⟨hfinite, hunits⟩ := Binary64.signedUnits_ofInt hn
  obtain ⟨t, v, hv, hy⟩ := Binary64.eq_finite hfinite
  cases x with
  | nan =>
    rw [hy]
    exact Iff.rfl
  | infinity s =>
    rw [hy]
    exact Iff.rfl
  | finite s u hu =>
    rw [Binary64.lt_iff hfinite rfl, hunits]
    exact decide_eq_true_iff

end SassData.Number

/-! ## Floating point -/

namespace SassData.Color

open Number (Binary64 Magnitude ArithmeticFault unitsInOne twoPow)

def shade (c : Color) : Shade Binary64 := ⟨c.red, c.green, c.blue, c.alpha⟩

theorem scaled_eq (c : Color) : c.scaled = c.shade.scaled := by
  have hquotient (n : UInt8) : Binary64.ofQuotient n.toNat 255 = (n.toNat : Binary64) / 255 := by
    have hn : n.toNat ≤ twoPow 53 :=
      Nat.le_trans (Nat.le_of_lt n.toNat_lt) (by decide)
    exact (Binary64.natCast_div hn (by decide) (by decide)).symm
  simp only [scaled, Shade.scaled, shade, hquotient]

theorem fraction_eq (x : Binary64) : fraction (.float x) = Shade.percentage x := by
  have hlow := Magnitude.float_lt_int x (n := 0) (by decide)
  have hhigh := Magnitude.int_lt_float x (n := 100) (by decide)
  have hzero : Binary64.ofQuotient 0 100 = 0 / 100 := by decide +kernel
  have hall : Binary64.ofQuotient 100 100 = 100 / 100 := by decide +kernel
  have horder : ¬ (100 : Binary64) < 0 := by decide +kernel
  have horder' : (100 : Magnitude).lt 0 = false := by decide
  unfold fraction Shade.percentage Shade.clamped Magnitude.clamp
  by_cases hx : x < 0
  · have hlt : (Magnitude.float x).lt 0 = true := hlow.mpr hx
    simp only [hx, hlt, horder, horder', if_true, if_false, Bool.false_eq_true]
    exact hzero
  · have hle : (Magnitude.float x).lt 0 = false := Bool.eq_false_iff.mpr (mt hlow.mp hx)
    simp only [hx, hle, if_false, Bool.false_eq_true]
    by_cases hx' : 100 < x
    · have hlt : (100 : Magnitude).lt (.float x) = true := hhigh.mpr hx'
      simp only [hx', hlt, if_true]
      exact hall
    · have hle : (100 : Magnitude).lt (.float x) = false := Bool.eq_false_iff.mpr (mt hhigh.mp hx')
      simp only [hx', hle, if_false, Bool.false_eq_true]

theorem floor_float (x : Binary64) : (Magnitude.float x).floor.toOption = x.floor? := by
  cases x <;> rfl

theorem roundChannel_float (x : Binary64) :
    (roundChannel (.float x)).toOption = Shade.byte? Binary64.floor? x := by
  have hclamp : (Magnitude.float x).clamp (.float 0) (.float 255) =
      .float (Shade.clamped 0 255 x) := by
    have hlt (y z : Binary64) : (Magnitude.float y).lt (.float z) = decide (y < z) := rfl
    simp only [Magnitude.clamp, Shade.clamped, ← apply_ite Magnitude.float, hlt, decide_eq_true_eq]
  have hmap (a : Magnitude) :
      ((fun n : Int => UInt8.ofNat n.toNat) <$> (do (← Except.ok a).floor)).toOption =
        a.floor.toOption.map fun n => UInt8.ofNat n.toNat := by
    change ((fun n : Int => UInt8.ofNat n.toNat) <$> a.floor).toOption = _
    cases a.floor <;> rfl
  rw [Shade.byte?, ← floor_float, roundChannel_eq, rounded, hclamp,
    Magnitude.add_eq_of_toFloat rfl, hmap]

theorem make_float (red green blue alpha : Binary64) :
    (make (.float red) (.float green) (.float blue) (.float alpha) none).toOption.map shade =
      Shade.make? Binary64.floor? ⟨red, green, blue⟩ alpha := by
  have hgiven : (Magnitude.float alpha).toFloat = .ok alpha := rfl
  have halpha : clampAlpha alpha = Shade.clamped 0 1 alpha := rfl
  rw [Shade.make?, ← roundChannel_float, ← roundChannel_float, ← roundChannel_float, make, hgiven,
    ← halpha]
  cases roundChannel (.float red) with
  | error => rfl
  | ok r =>
  cases roundChannel (.float green) with
  | error => rfl
  | ok g =>
  cases roundChannel (.float blue) with
  | error => rfl
  | ok b =>
    simp only [bind, Except.bind, pure, Except.pure, Except.toOption, Option.map_some,
      Option.bind, shade]

theorem ofHsl_float (hue saturation lightness alpha : Binary64) :
    (ofHsl (.float hue) (.float saturation) (.float lightness) (.float alpha)).toOption.map shade =
      Shade.ofHsl? Binary64.floor? hue saturation lightness alpha := by
  have hturn : turn (.float hue) = hue % 360 / 360 := rfl
  rw [ofHsl, make_float, hturn, fraction_eq, fraction_eq, Shade.ofHsl?]

/-- The pure hue that whiteness and blackness are mixed into. -/
theorem ofHsl_pure (hue : Binary64) :
    (ofHsl (.float hue) 100 50 1).toOption.map shade =
      Shade.ofHsl? Binary64.floor? hue 100 50 1 := by
  have hfull : fraction 100 = fraction (.float 100) := by decide +kernel
  have hhalf : fraction 50 = fraction (.float 50) := by decide +kernel
  have hone : (1 : Magnitude).toFloat = (Magnitude.float 1).toFloat := by decide +kernel
  rw [← ofHsl_float]
  simp only [ofHsl, hfull, hhalf, make, hone]

theorem ofHwb_float (hue whiteness blackness alpha : Binary64) :
    (ofHwb (.float hue) (.float whiteness) (.float blackness) (.float alpha)).toOption.map shade =
      Shade.ofHwb? Binary64.floor? hue whiteness blackness alpha := by
  have hok (c : Color) (f : Color → Except ArithmeticFault Color) :
      (Except.ok c >>= f) = f c := rfl
  have hsome (c : Color) (f : Shade Binary64 → Option (Shade Binary64)) :
      ((Except.ok c : Except ArithmeticFault Color).toOption.map shade >>= f) = f c.shade := rfl
  rw [ofHwb, Shade.ofHwb?, fraction_eq, fraction_eq, ← ofHsl_pure]
  generalize Shade.percentage whiteness = w
  generalize Shade.percentage blackness = b
  by_cases hfull : 1 ≤ w + b
  · rw [if_pos hfull, if_pos hfull]
    exact make_float _ _ _ _
  · rw [if_neg hfull, if_neg hfull]
    cases ofHsl (.float hue) 100 50 1 with
    | error => rfl
    | ok base =>
      rw [hok, hsome]
      exact make_float _ _ _ _

theorem hue_eq (c : Color) : c.hue = c.shade.hue := by
  rw [Shade.hue, ← scaled_eq, hue]

theorem saturation_eq (c : Color) : c.saturation = c.shade.saturation := by
  rw [Shade.saturation, ← scaled_eq, saturation]

theorem lightness_eq (c : Color) : c.lightness = c.shade.lightness := by
  rw [Shade.lightness, ← scaled_eq, lightness]

theorem whiteness_eq (c : Color) : c.whiteness = c.shade.whiteness := by
  rw [whiteness, Shade.whiteness, shade]

theorem blackness_eq (c : Color) : c.blackness = c.shade.blackness := by
  rw [blackness, Shade.blackness, shade]

/-- In floating point the formulas are the conversions of colours. -/
structure FormulasAreConversions : Prop where
  hue : ∀ c : Color, c.hue = c.shade.hue
  saturation : ∀ c : Color, c.saturation = c.shade.saturation
  lightness : ∀ c : Color, c.lightness = c.shade.lightness
  whiteness : ∀ c : Color, c.whiteness = c.shade.whiteness
  blackness : ∀ c : Color, c.blackness = c.shade.blackness
  ofHsl : ∀ h s l alpha : Binary64,
    (ofHsl (.float h) (.float s) (.float l) (.float alpha)).toOption.map shade =
      Shade.ofHsl? Binary64.floor? h s l alpha
  ofHwb : ∀ h w b alpha : Binary64,
    (ofHwb (.float h) (.float w) (.float b) (.float alpha)).toOption.map shade =
      Shade.ofHwb? Binary64.floor? h w b alpha

theorem formulasAreConversions : FormulasAreConversions :=
  ⟨hue_eq, saturation_eq, lightness_eq, whiteness_eq, blackness_eq, ofHsl_float, ofHwb_float⟩

end SassData.Color
