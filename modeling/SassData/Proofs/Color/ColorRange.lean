import SassData.Proofs.Number.RoundingBounds
import SassData.Proofs.Value.ValueParts

/-!
# Colours in range

A channel is clamped before it is rounded, so no integer outside a byte is ever stored, and what is
not a number is refused. The clamp of the opacity lets what is not a number pass, and nothing
refuses it: that is the one way for a colour to be out of range, whatever constructor made it and
whatever style sheet it is in.
-/

namespace SassData

set_option autoImplicit false

namespace Color

open Number (Binary64 Magnitude ArithmeticFault unitsInOne twoPow)

variable {a : Magnitude} {b : UInt8} {x : Binary64}

/-! ## Channels -/

/-- The integer that a channel is rounded to, before it is stored in a byte. -/
def rounded (a : Magnitude) : Except ArithmeticFault Int := do
  (← (a.clamp (.float 0) (.float 255)).add (.float (1 / 2))).floor

theorem roundChannel_eq (a : Magnitude) :
    roundChannel a = (fun n => UInt8.ofNat n.toNat) <$> rounded a := by
  rw [roundChannel, rounded]
  cases (a.clamp (.float 0) (.float 255)).add (.float (1 / 2)) <;> rfl

theorem rounded_between (ha : ¬ a.IsNan) : ∃ n, rounded a = .ok n ∧ 0 ≤ n ∧ n ≤ 255 := by
  have hzero : (0 : Binary64).isFinite = true ∧ (0 : Binary64).signedUnits = 0 * unitsInOne :=
    Binary64.signedUnits_ofInt (by decide)
  have htop : (255 : Binary64).isFinite = true ∧
      (255 : Binary64).signedUnits = 255 * unitsInOne := Binary64.signedUnits_ofInt (by decide)
  have hhalf : (1 / 2 : Binary64).isFinite = true ∧
      (1 / 2 : Binary64).signedUnits = twoPow 1073 := by decide +kernel
  have hunit : unitsInOne = 2 * twoPow 1073 := Number.twoPow_succ 1073
  have hpos := Number.twoPow_pos 1073
  have hle : (0 : Binary64).signedUnits ≤ (255 : Binary64).signedUnits := by
    rw [hzero.2, htop.2]
    omega
  obtain ⟨k, hk, hlow, hhigh⟩ := Magnitude.clamp_between hzero.1 htop.1 hle ha
  rw [hzero.2] at hlow
  rw [htop.2] at hhigh
  have hsmall : k.natAbs ≤ twoPow 53 * unitsInOne := by
    have h53 := Nat.mul_le_mul_right unitsInOne (show 255 ≤ twoPow 53 by decide)
    omega
  obtain ⟨x, hx, hfinite, hunits⟩ := Magnitude.toFloat_of_units hk hsmall
  -- The largest sum that is rounded down to a channel counts 511 halves.
  have hformat := @Binary64.inFormat_mul_twoPow 511 1073 (by decide) (by decide)
  obtain ⟨hsum, hsumLow, hsumHigh⟩ :=
    Binary64.add_between hfinite hhalf.1 hformat (by omega) (by omega)
  obtain ⟨n, hn, hbetween⟩ := Magnitude.floor_between 255 hsum hsumLow (by omega)
  refine ⟨n, ?_, hbetween⟩
  rw [rounded, Magnitude.add_eq_of_toFloat hx]
  exact hn

theorem rounded_of_isNan (ha : a.IsNan) : rounded a = .error .nanToInteger := by
  obtain ⟨s, i, rfl⟩ := Magnitude.eq_nan ha
  rw [rounded, Magnitude.clamp_of_isNan ha, Magnitude.add_eq_of_toFloat rfl]
  rfl

/-- A channel is the byte that its number is rounded to. What is not a number is refused. -/
theorem roundChannel_eq_ok_iff : roundChannel a = .ok b ↔ rounded a = .ok (b.toNat : Int) := by
  rw [roundChannel_eq]
  by_cases ha : a.IsNan
  · rw [rounded_of_isNan ha]
    exact iff_of_false nofun nofun
  · obtain ⟨n, hn, hlow, hhigh⟩ := rounded_between ha
    rw [hn]
    constructor
    · intro h
      cases h
      rw [UInt8.toNat_ofNat']
      exact congrArg Except.ok (by omega)
    · intro h
      cases h
      exact congrArg Except.ok UInt8.ofNat_toNat

/-! ## Opacities -/

/-- The channels are those of a byte and the opacity lies between nought and one. -/
structure IsInRange (c : Color) : Prop where
  red : c.red.toNat ≤ 255
  green : c.green.toNat ≤ 255
  blue : c.blue.toNat ≤ 255
  positive : 0 ≤ c.alpha
  atMostOne : c.alpha ≤ 1

theorem isInRange_iff {c : Color} : c.IsInRange ↔ 0 ≤ c.alpha ∧ c.alpha ≤ 1 := by
  constructor
  · intro h
    exact ⟨h.positive, h.atMostOne⟩
  · rintro ⟨hzero, hone⟩
    exact ⟨Nat.le_of_lt_succ c.red.toNat_lt, Nat.le_of_lt_succ c.green.toNat_lt,
      Nat.le_of_lt_succ c.blue.toNat_lt, hzero, hone⟩

theorem clampAlpha_of_isNan (h : x.isNan = true) : clampAlpha x = x := by
  have hlow : ¬ x < 0 := Binary64.not_lt_of_isNan h
  have hhigh : ¬ 1 < x := Binary64.not_lt_isNan h
  simp only [clampAlpha, hlow, hhigh, if_false]

theorem isNan_of_le (h : 0 ≤ x) : x.isNan = false := by
  cases x with
  | nan s i => exact absurd h (Bool.eq_false_iff.mp (Binary64.le_nan 0 s i))
  | infinity | finite => rfl

theorem bounds_ordered : (0 : Binary64) ≤ 0 ∧ (0 : Binary64) ≤ 1 ∧ (1 : Binary64) ≤ 1 ∧
    ¬ (1 : Binary64) < 0 := by
  decide +kernel

theorem clampAlpha_between (h : x.isNan = false) : 0 ≤ clampAlpha x ∧ clampAlpha x ≤ 1 := by
  obtain ⟨hzero, hzeroOne, hone, hnot⟩ := bounds_ordered
  unfold clampAlpha
  by_cases hlow : x < 0
  · simp only [hlow, if_true, hnot, if_false]
    exact ⟨hzero, hzeroOne⟩
  · by_cases hhigh : 1 < x
    · simp only [hlow, if_false, hhigh, if_true]
      exact ⟨hzeroOne, hone⟩
    · simp only [hlow, if_false, hhigh]
      exact ⟨Binary64.le_of_not_lt h (isNan_of_le hzero) hlow,
        Binary64.le_of_not_lt (isNan_of_le hzeroOne) h hhigh⟩

theorem isNan_clampAlpha : (clampAlpha x).isNan = x.isNan := by
  cases hx : x.isNan with
  | true => rw [clampAlpha_of_isNan hx, hx]
  | false => exact isNan_of_le (clampAlpha_between hx).1

theorem isInRange_clamp_iff {red green blue : UInt8} {spelling : Option String} :
    IsInRange ⟨red, green, blue, clampAlpha x, spelling⟩ ↔ x.isNan = false := by
  constructor
  · intro h
    have hzero := h.positive
    dsimp only at hzero
    rw [← isNan_clampAlpha]
    exact isNan_of_le hzero
  · intro h
    rw [isInRange_iff]
    dsimp only
    exact clampAlpha_between h

/-! ## Constructors -/

inductive Construction
  | direct (red green blue alpha : Magnitude) (spelling : Option String)
  | hsl (hue saturation lightness alpha : Magnitude)
  | hwb (hue whiteness blackness alpha : Magnitude)
  | hex (text : String)
  | name (text : String)

namespace Construction

def Makes : Construction → Color → Prop
  | direct red green blue alpha spelling, c => make red green blue alpha spelling = .ok c
  | hsl hue saturation lightness alpha, c => ofHsl hue saturation lightness alpha = .ok c
  | hwb hue whiteness blackness alpha, c => ofHwb hue whiteness blackness alpha = .ok c
  | hex text, c => ofHex? text = some c
  | name text, c => ofName? text = some c

def alpha? : Construction → Option Magnitude
  | direct _ _ _ alpha _ | hsl _ _ _ alpha | hwb _ _ _ alpha => some alpha
  | hex _ | name _ => none

end Construction

theorem eq_of_make {red green blue alpha : Magnitude} {spelling : Option String} {c : Color}
    (h : make red green blue alpha spelling = .ok c) :
    ∃ r g b x, alpha.toFloat = .ok x ∧ c = ⟨r, g, b, clampAlpha x, spelling⟩ := by
  obtain ⟨r, -, h⟩ := Number.bind_eq_ok_iff.mp h
  obtain ⟨g, -, h⟩ := Number.bind_eq_ok_iff.mp h
  obtain ⟨b, -, h⟩ := Number.bind_eq_ok_iff.mp h
  obtain ⟨x, hx, h⟩ := Number.bind_eq_ok_iff.mp h
  exact ⟨r, g, b, x, hx, (Except.ok.inj h).symm⟩

theorem isInRange_iff_of_make {red green blue alpha : Magnitude} {spelling : Option String}
    {c : Color} (h : make red green blue alpha spelling = .ok c) :
    c.IsInRange ↔ ¬ alpha.IsNan := by
  obtain ⟨r, g, b, x, hx, rfl⟩ := eq_of_make h
  rw [isInRange_clamp_iff, ← Magnitude.isNan_iff_of_toFloat hx]
  cases x <;> simp [Binary64.isNan, Magnitude.IsNan]

theorem isInRange_iff_of_hsl {hue saturation lightness alpha : Magnitude} {c : Color}
    (h : ofHsl hue saturation lightness alpha = .ok c) : c.IsInRange ↔ ¬ alpha.IsNan :=
  isInRange_iff_of_make h

theorem isInRange_iff_of_hwb {hue whiteness blackness alpha : Magnitude} {c : Color}
    (h : ofHwb hue whiteness blackness alpha = .ok c) : c.IsInRange ↔ ¬ alpha.IsNan := by
  simp only [ofHwb] at h
  split at h
  · exact isInRange_iff_of_make h
  · obtain ⟨base, -, h⟩ := Number.bind_eq_ok_iff.mp h
    exact isInRange_iff_of_make h

theorem le_of_bytes? {digits : List Char} {values : List Nat} (h : bytes? digits = some values) :
    ∀ n ∈ values, n ≤ 255 := by
  induction digits using bytes?.induct generalizing values with
  | case1 =>
    cases h
    exact nofun
  | case2 => cases h
  | case3 high low rest ih =>
    simp only [bytes?, Option.bind_eq_bind, Option.bind_eq_some_iff, Option.pure_def] at h
    obtain ⟨d, hd, e, he, values, hvalues, h⟩ := h
    cases h
    have hhigh := Text.hexDigit?_lt hd
    have hlow := Text.hexDigit?_lt he
    exact List.forall_mem_cons.mpr ⟨by omega, ih hvalues⟩

def ofBytes? (text : String) : List Nat → Option Color
  | [r, g, b] => some ⟨.ofNat r, .ofNat g, .ofNat b, 1, some text⟩
  | [r, g, b, a] => some ⟨.ofNat r, .ofNat g, .ofNat b, .ofQuotient a 255, some text⟩
  | _ => none

theorem ofHex?_eq_some {text : String} {c : Color} (h : ofHex? text = some c) :
    ∃ digits values, bytes? digits = some values ∧ ofBytes? text values = some c := by
  have hdigits {digits : List Char} (h : (bytes? digits).bind (ofBytes? text) = some c) :
      ∃ digits values, bytes? digits = some values ∧ ofBytes? text values = some c :=
    ⟨digits, Option.bind_eq_some_iff.mp h⟩
  unfold ofHex? at h
  extract_lets digits at h
  split at h
  · exact hdigits h
  · split at h
    · exact hdigits h
    · cases h

theorem spelling_of_hex {text : String} {c : Color} (h : ofHex? text = some c) :
    c.spelling = some text := by
  obtain ⟨digits, values, -, h⟩ := ofHex?_eq_some h
  unfold ofBytes? at h
  split at h <;> cases h
  · rfl
  · rfl

theorem isInRange_of_hex {text : String} {c : Color} (h : ofHex? text = some c) :
    c.IsInRange := by
  obtain ⟨-, hzeroOne, hone, -⟩ := bounds_ordered
  obtain ⟨digits, values, hvalues, h⟩ := ofHex?_eq_some h
  unfold ofBytes? at h
  split at h
  · cases h
    exact isInRange_iff.mpr ⟨hzeroOne, hone⟩
  · next r g b a =>
    cases h
    have ha : a ≤ 255 := le_of_bytes? hvalues a (by simp)
    rw [isInRange_iff]
    dsimp only
    exact Binary64.ofQuotient_between (by decide) ha
  · cases h

theorem spelling_of_name {text : String} {c : Color} (h : ofName? text = some c) :
    c.spelling = some text := by
  unfold ofName? at h
  split at h
  · cases h
    rfl
  · obtain ⟨n, -, rfl⟩ := Option.map_eq_some_iff.mp h
    rfl

theorem isInRange_of_name {text : String} {c : Color} (h : ofName? text = some c) :
    c.IsInRange := by
  obtain ⟨hzero, hzeroOne, hone, -⟩ := bounds_ordered
  unfold ofName? at h
  split at h
  · cases h
    exact isInRange_iff.mpr ⟨hzero, hzeroOne⟩
  · obtain ⟨n, -, rfl⟩ := Option.map_eq_some_iff.mp h
    exact isInRange_iff.mpr ⟨hzeroOne, hone⟩

theorem le_of_named? {text : String} {n : Nat} (h : named? text = some n) : n ≤ 0xffffff := by
  have hall : ∀ entry ∈ names, entry.2 ≤ 0xffffff := by decide +kernel
  obtain ⟨before, after, hnames, -⟩ := List.lookup_eq_some_iff.mp h
  exact hall (foldCase text, n) (hnames ▸ by simp)

/-- Only an opacity that is given and is not a number makes a colour that is out of range. -/
theorem isInRange_iff_of_makes {construction : Construction} {c : Color}
    (h : construction.Makes c) :
    c.IsInRange ↔ ∀ a, construction.alpha? = some a → ¬ a.IsNan := by
  have hgiven (alpha : Magnitude) :
      (∀ a, some alpha = some a → ¬ a.IsNan) ↔ ¬ alpha.IsNan := by
    simp only [Option.some.injEq, forall_eq']
  cases construction with
  | direct => exact (isInRange_iff_of_make h).trans (hgiven _).symm
  | hsl => exact (isInRange_iff_of_hsl h).trans (hgiven _).symm
  | hwb => exact (isInRange_iff_of_hwb h).trans (hgiven _).symm
  | hex text => exact iff_of_true (isInRange_of_hex h) nofun
  | name text => exact iff_of_true (isInRange_of_name h) nofun

/-- The colour is in range, or else its opacity is not a number. -/
def IsSound (c : Color) : Prop := c.alpha.isNan = false → c.IsInRange

theorem isSound_of_make {red green blue alpha : Magnitude} {spelling : Option String}
    {c : Color} (h : make red green blue alpha spelling = .ok c) : c.IsSound := by
  obtain ⟨r, g, b, x, -, rfl⟩ := eq_of_make h
  intro hnumber
  dsimp only at hnumber
  rw [isNan_clampAlpha] at hnumber
  exact isInRange_clamp_iff.mpr hnumber

theorem isSound_hold {c : Color} (count : Nat) (h : c.IsSound) :
    IsSound { c with alpha := (c.alpha.hold count).1 } := by
  obtain ⟨red, green, blue, alpha, spelling⟩ := c
  cases alpha with
  | nan => exact nofun
  | infinity | finite => exact h

end Color

/-! ## Colours in values -/

namespace Value

/-- Every colour in the value, however deep in lists and maps, is sound. -/
def ColorsAreSound : Value → Prop := PartsAre fun part => ∀ c, part = .color c → c.IsSound

theorem colorsAreSound_color {c : Color} (h : c.IsSound) : (color c).ColorsAreSound := by
  refine (partsAre_single rfl).mpr ?_
  rintro d ⟨⟩
  exact h

theorem colorsAreSound_single {v : Value} (hparts : v.parts = [v]) (hc : ∀ c, v ≠ .color c) :
    v.ColorsAreSound :=
  (partsAre_single hparts).mpr fun c h => absurd h (hc c)

theorem colorsAreSound_concat (text : String) (v : Value) : (concat text v).ColorsAreSound := by
  unfold concat
  cases Text.mark? text <;> exact colorsAreSound_single rfl nofun

theorem colorsAreSound_onNumbers (op : BinaryOp) (a b : Number) :
    (Operation.onNumbers op a b).Ensures ColorsAreSound := by
  have hnumber (x : Outcome Number) : (Value.number <$> x).Ensures ColorsAreSound :=
    Outcome.ensures_map fun _ _ => colorsAreSound_single rfl nofun
  have hordered (test : Number.Magnitude → Bool) :
      Outcome.Ensures ColorsAreSound (do return .bool (test (← a.compare b))) :=
    Outcome.ensures_bind fun _ => Outcome.ensures_ok (colorsAreSound_single rfl nofun)
  cases op with
  | add | sub | mod | mul | div => exact hnumber _
  | lt | le | gt | ge => exact hordered _
  | or | and | eq | ne => exact Outcome.ensures_error _

theorem colorsAreSound_apply (op : BinaryOp) (a b : Value) :
    (Operation.apply op a b).Ensures ColorsAreSound := by
  unfold Operation.apply
  split
  · exact Outcome.ensures_map fun _ _ => colorsAreSound_single rfl nofun
  · exact Outcome.ensures_bind fun _ => Outcome.ensures_ok (colorsAreSound_single rfl nofun)
  · exact colorsAreSound_onNumbers _ _ _
  · unfold Operation.onTexts
    split
    · exact Outcome.ensures_ok (colorsAreSound_concat _ _)
    · exact Outcome.ensures_ok (colorsAreSound_single rfl nofun)
    · exact Outcome.ensures_ok (colorsAreSound_single rfl nofun)
    · exact Outcome.ensures_ok (colorsAreSound_single rfl nofun)
    · exact Outcome.ensures_error _

theorem colorsAreSound_applyUnary (op : UnaryOp) (v : Value) :
    (Operation.applyUnary op v).ColorsAreSound := by
  unfold Operation.applyUnary
  split <;> exact colorsAreSound_single rfl nofun

theorem colorsAreSound_hold {v : Value} (count : Nat) (h : v.ColorsAreSound) :
    (v.hold count).1.ColorsAreSound := by
  refine (isPartwise_partsAre nofun).hold ⟨?_, ?_, ?_⟩ v count h
  · exact fun _ _ _ => colorsAreSound_single rfl nofun
  · intro c count hc
    exact colorsAreSound_color (Color.isSound_hold count ((partsAre_single rfl).mp hc c rfl))
  · exact fun _ _ _ _ => colorsAreSound_single rfl nofun

theorem isInvariant_colorsAreSound : IsInvariant ColorsAreSound where
  null := colorsAreSound_single rfl nofun
  list_iff := partsAre_list_iff
  map_iff := partsAre_map_iff
  hold := colorsAreSound_hold
  unary _ := colorsAreSound_applyUnary _ _
  binary _ _ := colorsAreSound_apply _ _ _
  plainCall _ := colorsAreSound_single rfl nofun

end Value

theorem Source.ofTokens_colorsAreSound : OfTokens Value.ColorsAreSound where
  null := Value.colorsAreSound_single rfl nofun
  token _ hd := by
    cases hd with
    | number | string => exact Value.colorsAreSound_single rfl nofun
    | hash h => exact Value.colorsAreSound_color fun _ => Color.isInRange_of_hex h
    | word word =>
      unfold Reading.wordValue
      split
      · exact Value.colorsAreSound_single rfl nofun
      split
      · exact Value.colorsAreSound_single rfl nofun
      split
      · exact Value.colorsAreSound_single rfl nofun
      split
      · next h => exact Value.colorsAreSound_color fun _ => Color.isInRange_of_name h
      · exact Value.colorsAreSound_single rfl nofun

theorem Builtin.colorsAreSound_ofArithmetic {x : Except Number.ArithmeticFault Color}
    (h : ∀ c, x = .ok c → c.IsSound) :
    Outcome.Ensures Value.ColorsAreSound (do return .color (← Outcome.ofArithmetic x)) := by
  cases x with
  | error fault => exact Outcome.ensures_error _
  | ok c => exact Outcome.ensures_ok (Value.colorsAreSound_color (h c rfl))

theorem Builtin.makesOnly_colorsAreSound : MakesOnly Value.ColorsAreSound where
  rgb _ _ _ _ :=
    Outcome.ensures_bind fun _ => Outcome.ensures_bind fun _ => Outcome.ensures_bind fun _ =>
      Outcome.ensures_bind fun _ => colorsAreSound_ofArithmetic fun _ => Color.isSound_of_make
  hsl _ _ _ _ :=
    Outcome.ensures_bind fun _ => Outcome.ensures_bind fun _ => Outcome.ensures_bind fun _ =>
      Outcome.ensures_bind fun _ => colorsAreSound_ofArithmetic fun _ => Color.isSound_of_make
  integer _ := Value.colorsAreSound_single rfl nofun
  typeOf _ := Outcome.ensures_ok (Value.colorsAreSound_single rfl nofun)
  unit _ := Outcome.ensures_bind fun _ => Outcome.ensures_ok (Value.colorsAreSound_single rfl nofun)
  unitless _ :=
    Outcome.ensures_bind fun _ => Outcome.ensures_ok (Value.colorsAreSound_single rfl nofun)
  quote _ :=
    Outcome.ensures_bind fun _ => Outcome.ensures_ok (Value.colorsAreSound_single rfl nofun)
  unquote _ :=
    Outcome.ensures_bind fun _ => Outcome.ensures_ok (Value.colorsAreSound_single rfl nofun)

/-! ## Sessions -/

namespace Session

open Number (Magnitude)

/-- A channel is the integer that its number is rounded to and never one that wraps round in a byte;
so are the digits and the table of names. What a constructor makes is in range exactly if the
opacity it is given, if any, is a number. And after any style sheets, in a session whose functions
hand back no worse colours, a colour in the value of an expression is in range exactly if its
opacity is a number. -/
theorem isInRange_iff_isNumber (functions : Registry)
    (hfunctions : ∀ entry ∈ functions, entry.2.Keeps Value.ColorsAreSound) :
    (∀ a b, Color.roundChannel a = .ok b ↔ Color.rounded a = .ok (b.toNat : Int)) ∧
      (∀ digits values, Color.bytes? digits = some values → ∀ n ∈ values, n ≤ 255) ∧
      (∀ name n, Color.named? name = some n → n ≤ 0xffffff) ∧
      (∀ (construction : Color.Construction) c, construction.Makes c →
        (c.IsInRange ↔ ∀ a, construction.alpha? = some a → ¬ a.IsNan)) ∧
      ∀ sources text e, Source.Occurs e text → ∀ v trace,
        ((start functions).runSources sources).evaluate e = .ok (v, trace) →
        ∀ c, .color c ∈ v.parts → (c.IsInRange ↔ c.alpha.isNan = false) := by
  refine ⟨fun a b => Color.roundChannel_eq_ok_iff, fun _ _ => Color.le_of_bytes?,
    fun _ _ => Color.le_of_named?, ?_, ?_⟩
  · intro construction c hc
    exact Color.isInRange_iff_of_makes hc
  · intro sources text e he v trace h c hc
    have hP := Value.isInvariant_colorsAreSound
    have hread := Source.ofTokens_colorsAreSound
    have hstart := keeps_start_with hP Builtin.makesOnly_colorsAreSound hfunctions
    have hv := (hstart.runSources hP hread sources).evaluate hP
      (Source.leavesAre_of_occurs hread.ofLeaves he) (v, trace) h
    exact ⟨fun hrange => Color.isNan_of_le hrange.positive, hv _ hc c rfl⟩

/-- Channels and an opacity from outside, an infinity among them, and two colours of a list. -/
theorem isInRange_clamped :
    (∃ c, (Color.Construction.direct 300 (.int (-5)) (.float (.infinity false)) 2 none).Makes c ∧
      c.IsInRange) ∧
    ∃ v trace, Source.Occurs (.variable "a") "$a" ∧
      ((start Literal.probeRegistry).runSources
        ["$a: [rgb(300, -5, 12.5, 150%), ___(#80808080)];"]).evaluate (.variable "a") =
          .ok (v, trace) ∧
      v.parts.length = 2 ∧ ∀ c, .color c ∈ v.parts → c.IsInRange := by
  have hprobe : ∀ entry ∈ Literal.probeRegistry, entry.2.Keeps Value.ColorsAreSound := by
    refine List.forall_mem_singleton.mpr ⟨fun arguments ha v hv => ?_, ?_⟩
    · cases hv
      cases arguments with
      | nil => exact Value.isInvariant_colorsAreSound.null
      | cons w _ => exact ha w List.mem_cons_self
    · exact List.forall_mem_singleton.mpr nofun
  obtain ⟨-, -, -, hmakes, hsources⟩ := isInRange_iff_isNumber Literal.probeRegistry hprobe
  constructor
  · have hsome : ((Color.make 300 (.int (-5)) (.float (.infinity false)) 2 none).toOption).isSome =
        true := by decide +kernel
    cases hc : Color.make 300 (.int (-5)) (.float (.infinity false)) 2 none with
    | error fault =>
      rw [hc] at hsome
      cases hsome
    | ok c =>
      refine ⟨c, hc, (hmakes (.direct _ _ _ _ _) c hc).mpr ?_⟩
      rintro _ ⟨⟩
      exact not_false
  · have hoccurs : Source.Occurs (.variable "a") "$a" := Or.inl rfl
    have hrun : ∃ result, ((start Literal.probeRegistry).runSources
        ["$a: [rgb(300, -5, 12.5, 150%), ___(#80808080)];"]).evaluate (.variable "a") = .ok result ∧
        (result.1.parts.length == 2 && result.1.parts.all fun part =>
          part.color?.all fun c => !c.alpha.isNan) = true := by decide +kernel
    obtain ⟨⟨v, trace⟩, h, hparts⟩ := hrun
    rw [Bool.and_eq_true, beq_iff_eq, List.all_eq_true] at hparts
    refine ⟨v, trace, hoccurs, h, hparts.1, fun c hc => ?_⟩
    refine (hsources _ "$a" _ hoccurs v trace h c hc).mpr ?_
    exact Bool.not_eq_true' _ |>.mp (hparts.2 _ hc)

/-- Zero by zero is not a number, and as an opacity it is taken. -/
theorem not_isInRange_undivided :
    ¬ ∀ source v, evaluateSource source [] = .ok v → ∀ c, .color c ∈ v.parts → c.IsInRange := by
  intro hall
  have hrun : ∃ v, evaluateSource "rgb(0, 0, 0, 0/0)" [] = .ok v ∧
      (v.parts.any fun part => part.color?.any fun c => c.alpha.isNan) = true := by
    decide +kernel
  obtain ⟨v, h, hany⟩ := hrun
  obtain ⟨part, hpart, hany⟩ := List.any_eq_true.mp hany
  obtain ⟨c, hc, hnan⟩ := (Option.any_eq_true _ _).mp hany
  rw [Value.color?_eq_some_iff.mp hc] at hpart
  rw [Color.isNan_of_le (hall _ v h c hpart).positive] at hnan
  cases hnan

end Session

end SassData
