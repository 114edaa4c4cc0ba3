import SassData.Proofs.Color.ColorRange
import SassData.Proofs.Source.TokenReading

/-!
# Colours in hexadecimal digits

Three, four, six or eight hexadecimal digits, with a hash in front of them or without one, write a
colour. Two digits are the number of a channel to base sixteen, and in the short forms each digit
stands for two. An opaque colour without a spelling is shown in this way, and the text that shows it
is one token where an expression stands and is read as the same colour.
-/

namespace SassData

set_option autoImplicit false

/-! ## Digits -/

namespace Text

variable {c : Char} {n : Nat}

def IsHexDigit (c : Char) : Prop := c ∈ "0123456789abcdefABCDEF".toList

/-- The character is the digit of the number, in lower or in upper case. -/
def HasHexValue (c : Char) (n : Nat) : Prop :=
  "0123456789abcdef".toList[n]? = some c ∨ "0123456789ABCDEF".toList[n]? = some c

instance (c : Char) (n : Nat) : Decidable (HasHexValue c n) :=
  inferInstanceAs (Decidable (_ ∨ _))

theorem HasHexValue.lt (h : HasHexValue c n) : n < 16 := by
  rcases h with h | h
  · exact (List.getElem?_eq_some_iff.mp h).1
  · exact (List.getElem?_eq_some_iff.mp h).1

theorem isHexDigit_iff : IsHexDigit c ↔ ∃ n, HasHexValue c n := by
  have hcases : "0123456789abcdefABCDEF".toList ⊆
      "0123456789abcdef".toList ++ "0123456789ABCDEF".toList := by
    decide
  have hlower : "0123456789abcdef".toList ⊆ "0123456789abcdefABCDEF".toList := by decide
  have hupper : "0123456789ABCDEF".toList ⊆ "0123456789abcdefABCDEF".toList := by decide
  simp only [HasHexValue, exists_or, ← List.mem_iff_getElem?]
  constructor
  · intro h
    exact List.mem_append.mp (hcases h)
  · rintro (h | h)
    · exact hlower h
    · exact hupper h

theorem toNat_lt_of_hexDigit? (h : hexDigit? c = some n) : c.toNat < 128 := by
  have le_toNat {d : Char} (hd : c ≤ d) : c.toNat ≤ d.toNat := hd
  have hcodes : '9'.toNat < 128 ∧ 'f'.toNat < 128 ∧ 'F'.toNat < 128 := by decide
  unfold hexDigit? at h
  simp only [Bool.and_eq_true, decide_eq_true_eq] at h
  split at h
  · next hc => exact Nat.lt_of_le_of_lt (le_toNat hc.2) hcodes.1
  split at h
  · next hc => exact Nat.lt_of_le_of_lt (le_toNat hc.2) hcodes.2.1
  split at h
  · next hc => exact Nat.lt_of_le_of_lt (le_toNat hc.2) hcodes.2.2
  · cases h

theorem hexDigit?_eq_some_iff : hexDigit? c = some n ↔ HasHexValue c n := by
  constructor
  · intro h
    have hall : ∀ k < 128, (hexDigit? (Char.ofNat k)).all (HasHexValue (Char.ofNat k) ·) := by
      decide
    have hc := hall c.toNat (toNat_lt_of_hexDigit? h)
    rw [Char.ofNat_toNat, h] at hc
    exact of_decide_eq_true hc
  · have hlower : ∀ k < 16, "0123456789abcdef".toList[k]?.bind hexDigit? = some k := by decide
    have hupper : ∀ k < 16, "0123456789ABCDEF".toList[k]?.bind hexDigit? = some k := by decide
    intro h
    rcases h with hc | hc
    · have hn := hlower n (HasHexValue.lt (Or.inl hc))
      rwa [hc] at hn
    · have hn := hupper n (HasHexValue.lt (Or.inr hc))
      rwa [hc] at hn

theorem hasHexValue_hexDigit (h : n < 16) : HasHexValue (hexDigit n) n := by
  have hall : ∀ k < 16, HasHexValue (hexDigit k) k := by decide
  exact hall n h

theorem IsHexDigit.isAlphanum (h : IsHexDigit c) : c.isAlphanum = true := by
  have hall : "0123456789abcdefABCDEF".toList.all Char.isAlphanum = true := by decide
  exact List.all_eq_true.mp hall c h

end Text

/-! ## Bytes as channels -/

namespace Number.Binary64

variable {x y : Binary64}

/-- A sum whose units are those of a floating-point number is not rounded. -/
theorem add_of_inFormat {u : Nat} (hx : x.isFinite = true) (hy : y.isFinite = true)
    (hu : InFormat u) (hpos : 0 < u) (h : x.signedUnits + y.signedUnits = u) :
    x + y = finite false u hu := by
  obtain ⟨s, v, hv, rfl⟩ := eq_finite hx
  obtain ⟨t, w, hw, rfl⟩ := eq_finite hy
  have hne : ((u : Int) == 0) = false := beq_false_of_ne (by omega)
  have hpositive : decide ((u : Int) < 0) = false := decide_eq_false (by omega)
  have hround : roundBits u 1 = u := roundBits_of_fits hu.fits
  change add _ _ = _
  simp only [add, h, hne, Bool.false_eq_true, if_false, ofUnits, nearest, hpositive,
    Int.natAbs_natCast, hround]
  rw [dif_pos (Nat.lt_of_not_le hu.notTooLarge)]

theorem not_lt_of_le (h : x ≤ y) : ¬ y < x := by
  cases x with
  | nan => exact not_lt_isNan rfl
  | infinity s =>
    cases y with
    | nan => exact not_lt_of_isNan rfl
    | infinity t =>
      change ((s && !t) || s == t) = true at h
      change ¬ (t && !s) = true
      revert s t
      decide
    | finite t v hv =>
      change (s || false) = true at h
      change ¬ (!s) = true
      revert s
      decide
  | finite s u hu =>
    cases y with
    | nan => exact not_lt_of_isNan rfl
    | infinity t =>
      change (!t || false) = true at h
      change ¬ t = true
      revert t
      decide
    | finite t v hv =>
      rw [lt_iff rfl rfl, Int.not_lt]
      exact (le_iff rfl rfl).mp h

end Number.Binary64

namespace Color

open Number (Binary64 Magnitude ArithmeticFault unitsInOne twoPow)

theorem clamp_byte {n : Nat} (hn : n ≤ 255) :
    (Magnitude.int n).clamp (.float 0) (.float 255) = .int n := by
  have hzero := @Binary64.signedUnits_ofInt 0 (by decide)
  have htop := @Binary64.signedUnits_ofInt 255 (by decide)
  have hpoint : (Magnitude.int n).point = .units (n * unitsInOne) := rfl
  have hunit : (0 : Int) ≤ unitsInOne := Int.natCast_nonneg unitsInOne
  have hlow : (Magnitude.int n).lt (.float 0) = false := by
    rw [Bool.eq_false_iff]
    intro h
    have hlt := (Magnitude.lt_float_iff hpoint hzero.1).mp h
    rw [hzero.2] at hlt
    exact absurd hlt (Int.not_lt.mpr (Int.mul_le_mul_of_nonneg_right (by omega) hunit))
  have hhigh : (Magnitude.float 255).lt (.int n) = false := by
    rw [Bool.eq_false_iff]
    intro h
    have hlt := (Magnitude.float_lt_iff hpoint htop.1).mp h
    rw [htop.2] at hlt
    exact absurd hlt (Int.not_lt.mpr (Int.mul_le_mul_of_nonneg_right (by omega) hunit))
  simp only [Magnitude.clamp, hlow, hhigh, Bool.false_eq_true, if_false]

/-- A byte is rounded to itself: the half that is added is cut off again. -/
theorem roundChannel_byte (b : UInt8) : roundChannel (.int b.toNat) = .ok b := by
  rw [roundChannel_eq_ok_iff, rounded, clamp_byte (Nat.le_of_lt_succ b.toNat_lt)]
  have hb : b.toNat ≤ 255 := Nat.le_of_lt_succ b.toNat_lt
  have hpos : 0 < twoPow 1073 := Number.twoPow_pos 1073
  have hunit : unitsInOne = 2 * twoPow 1073 := Number.twoPow_succ 1073
  have hhalf : (1 / 2 : Binary64).isFinite = true ∧
      (1 / 2 : Binary64).signedUnits = twoPow 1073 := by decide +kernel
  have hsmall : ((b.toNat : Int) * unitsInOne).natAbs ≤ twoPow 53 * unitsInOne := by
    rw [Int.natAbs_mul, Int.natAbs_natCast, Int.natAbs_natCast]
    exact Nat.mul_le_mul_right _ (Nat.le_trans hb (by decide))
  obtain ⟨x, hx, hfinite, hunits⟩ :=
    @Magnitude.toFloat_of_units (.int b.toNat) _ rfl hsmall
  have hformat : Number.InFormat ((2 * b.toNat + 1) * twoPow 1073) :=
    Binary64.inFormat_mul_twoPow (Nat.le_trans (by omega : 2 * b.toNat + 1 ≤ 511) (by decide))
      (by decide)
  have hsum : x.signedUnits + (1 / 2 : Binary64).signedUnits =
      ((2 * b.toNat + 1) * twoPow 1073 : Nat) := by
    rw [hunits, hhalf.2, hunit]
    push_cast
    rw [Int.add_mul, Int.one_mul, Int.mul_left_comm, Int.mul_assoc]
  have hfloor : ((((2 * b.toNat + 1) * twoPow 1073 : Nat) : Int)).fdiv unitsInOne = b.toNat := by
    rw [Int.fdiv_eq_ediv_of_nonneg _ (Int.natCast_nonneg _), hunit, ← Int.natCast_ediv,
      Nat.mul_div_mul_right _ _ hpos]
    omega
  rw [Magnitude.add_eq_of_toFloat hx,
    Binary64.add_of_inFormat hfinite hhalf.1 hformat (Nat.mul_pos (by omega) hpos) hsum]
  exact congrArg Except.ok hfloor

theorem clampAlpha_of_between {x : Binary64} (hlow : 0 ≤ x) (hhigh : x ≤ 1) :
    clampAlpha x = x := by
  have hnegative := Binary64.not_lt_of_le hlow
  have habove := Binary64.not_lt_of_le hhigh
  simp only [clampAlpha, hnegative, habove, if_false]

/-! ## Decoding -/

open Text (IsHexDigit HasHexValue hexDigit?_eq_some_iff isHexDigit_iff hasHexValue_hexDigit)

/-- Digits two by two and the numbers that they write to base sixteen. -/
inductive WriteBytes : List Char → List Nat → Prop
  | nil : WriteBytes [] []
  | cons {high low : Char} {m n : Nat} {digits : List Char} {values : List Nat}
    (hhigh : HasHexValue high m) (hlow : HasHexValue low n) (hrest : WriteBytes digits values) :
    WriteBytes (high :: low :: digits) ((16 * m + n) :: values)

variable {digits : List Char} {values : List Nat}

theorem bytes?_eq_some_iff : bytes? digits = some values ↔ WriteBytes digits values := by
  constructor
  · intro h
    induction digits using bytes?.induct generalizing values with
    | case1 =>
      cases h
      exact .nil
    | case2 => cases h
    | case3 high low rest ih =>
      simp only [bytes?, Option.bind_eq_bind, Option.bind_eq_some_iff, Option.pure_def] at h
      obtain ⟨m, hm, n, hn, values, hvalues, h⟩ := h
      cases h
      exact .cons (hexDigit?_eq_some_iff.mp hm) (hexDigit?_eq_some_iff.mp hn) (ih hvalues)
  · intro h
    induction h with
    | nil => rfl
    | cons hhigh hlow _ ih =>
      rw [bytes?, hexDigit?_eq_some_iff.mpr hhigh, hexDigit?_eq_some_iff.mpr hlow, ih]
      rfl

theorem WriteBytes.length_eq (h : WriteBytes digits values) :
    digits.length = 2 * values.length := by
  induction h with
  | nil => rfl
  | cons _ _ _ ih =>
    simp only [List.length_cons, ih]
    omega

theorem WriteBytes.isHexDigit (h : WriteBytes digits values) : ∀ d ∈ digits, IsHexDigit d := by
  induction h with
  | nil => exact nofun
  | cons hhigh hlow _ ih =>
    exact List.forall_mem_cons.mpr
      ⟨isHexDigit_iff.mpr ⟨_, hhigh⟩, List.forall_mem_cons.mpr ⟨isHexDigit_iff.mpr ⟨_, hlow⟩, ih⟩⟩

theorem exists_writeBytes {count : Nat} (hlength : digits.length = 2 * count)
    (h : ∀ d ∈ digits, IsHexDigit d) : ∃ values, WriteBytes digits values := by
  induction digits using bytes?.induct generalizing count with
  | case1 => exact ⟨[], .nil⟩
  | case2 d =>
    rw [List.length_singleton] at hlength
    omega
  | case3 high low rest ih =>
    obtain ⟨hhigh, h⟩ := List.forall_mem_cons.mp h
    obtain ⟨hlow, h⟩ := List.forall_mem_cons.mp h
    obtain ⟨m, hm⟩ := isHexDigit_iff.mp hhigh
    obtain ⟨n, hn⟩ := isHexDigit_iff.mp hlow
    obtain ⟨values, hvalues⟩ := @ih (count - 1)
      (by simp only [List.length_cons] at hlength; omega) h
    exact ⟨_, .cons hm hn hvalues⟩

/-- The numbers that the digits of a colour write: in the short forms each digit stands for two. -/
inductive WriteChannels : List Char → List Nat → Prop
  | short {digits : List Char} {values : List Nat} (hlength : digits.length = 3 ∨ digits.length = 4)
    (h : WriteBytes (digits.flatMap fun d => [d, d]) values) : WriteChannels digits values
  | long {digits : List Char} {values : List Nat} (hlength : digits.length = 6 ∨ digits.length = 8)
    (h : WriteBytes digits values) : WriteChannels digits values

theorem length_doubled (digits : List Char) :
    (digits.flatMap fun d => [d, d]).length = 2 * digits.length := by
  induction digits with
  | nil => rfl
  | cons d rest ih =>
    simp only [List.flatMap_cons, List.length_append, List.length_cons, List.length_nil, ih]
    omega

theorem forall_mem_doubled_iff {P : Char → Prop} :
    (∀ d ∈ digits.flatMap fun d => [d, d], P d) ↔ ∀ d ∈ digits, P d := by
  simp [List.mem_flatMap]

theorem WriteChannels.length_values (h : WriteChannels digits values) :
    values.length = 3 ∨ values.length = 4 := by
  cases h with
  | short hlength h =>
    have hdoubled := h.length_eq
    rw [length_doubled] at hdoubled
    omega
  | long hlength h =>
    have hdigits := h.length_eq
    omega

theorem WriteBytes.le (h : WriteBytes digits values) : ∀ n ∈ values, n ≤ 255 :=
  le_of_bytes? (bytes?_eq_some_iff.mpr h)

theorem WriteChannels.le (h : WriteChannels digits values) : ∀ n ∈ values, n ≤ 255 := by
  cases h with
  | short _ h => exact h.le
  | long _ h => exact h.le

theorem exists_writeChannels_iff :
    (∃ values, WriteChannels digits values) ↔
      digits.length ∈ [3, 4, 6, 8] ∧ ∀ d ∈ digits, IsHexDigit d := by
  have hlengths : digits.length ∈ [3, 4, 6, 8] ↔
      (digits.length = 3 ∨ digits.length = 4) ∨ (digits.length = 6 ∨ digits.length = 8) := by
    simp only [List.mem_cons, List.not_mem_nil, or_false, or_assoc]
  rw [hlengths]
  constructor
  · rintro ⟨values, h⟩
    cases h with
    | short hlength h => exact ⟨Or.inl hlength, forall_mem_doubled_iff.mp h.isHexDigit⟩
    | long hlength h => exact ⟨Or.inr hlength, h.isHexDigit⟩
  · rintro ⟨hlength | hlength, hdigits⟩
    · obtain ⟨values, h⟩ :=
        exists_writeBytes (length_doubled digits) (forall_mem_doubled_iff.mpr hdigits)
      exact ⟨values, .short hlength h⟩
    · obtain ⟨values, h⟩ := @exists_writeBytes digits (digits.length / 2) (by omega) hdigits
      exact ⟨values, .long hlength h⟩

def withoutHash (text : String) : List Char :=
  match text.toList with
  | '#' :: rest => rest
  | all => all

theorem length_eq_or_iff {a b : Nat} :
    (digits.length == a || digits.length == b) = true ↔ digits.length = a ∨ digits.length = b := by
  rw [Bool.or_eq_true, beq_iff_eq, beq_iff_eq]

theorem writeChannels_iff_of_short (hlength : digits.length = 3 ∨ digits.length = 4) :
    WriteChannels digits values ↔ WriteBytes (digits.flatMap fun d => [d, d]) values := by
  constructor
  · intro h
    cases h with
    | short _ h => exact h
    | long hlong _ => omega
  · exact .short hlength

theorem writeChannels_iff_of_long (hlength : digits.length = 6 ∨ digits.length = 8) :
    WriteChannels digits values ↔ WriteBytes digits values := by
  constructor
  · intro h
    cases h with
    | short hshort _ => omega
    | long _ h => exact h
  · exact .long hlength

theorem ofHex?_eq_some_iff {text : String} {c : Color} :
    ofHex? text = some c ↔
      ∃ values, WriteChannels (withoutHash text) values ∧ ofBytes? text values = some c := by
  have hbytes {wide : List Char} : (bytes? wide).bind (ofBytes? text) = some c ↔
      ∃ values, bytes? wide = some values ∧ ofBytes? text values = some c :=
    Option.bind_eq_some_iff
  unfold ofHex?
  extract_lets digits _
  have hdigits : withoutHash text = digits := rfl
  rw [hdigits]
  split
  · next hshort =>
    rw [length_eq_or_iff] at hshort
    simp only [writeChannels_iff_of_short hshort, ← bytes?_eq_some_iff]
    exact hbytes
  split
  · next hlong =>
    rw [length_eq_or_iff] at hlong
    simp only [writeChannels_iff_of_long hlong, ← bytes?_eq_some_iff]
    exact hbytes
  · next hshort hlong =>
    rw [length_eq_or_iff] at hshort hlong
    refine iff_of_false nofun ?_
    rintro ⟨values, h, -⟩
    cases h with
    | short hlength h => exact hshort hlength
    | long hlength h => exact hlong hlength

structure HasChannels (c : Color) (red green blue : Nat) (alpha : Binary64) : Prop where
  red : c.red.toNat = red
  green : c.green.toNat = green
  blue : c.blue.toNat = blue
  alpha : c.alpha = alpha

/-- The digits of the text write the channels of the colour, and a fourth number its opacity in
parts of 255; without one it is opaque. The colour is what is made of these and of the text. -/
inductive IsWrittenBy (c : Color) (text : String) : Prop
  | solid {r g b : Nat} (hdigits : WriteChannels (withoutHash text) [r, g, b])
    (hchannels : c.HasChannels r g b 1)
    (hmade : make (.int r) (.int g) (.int b) (.float 1) (some text) = .ok c)
  | translucent {r g b a : Nat} (hdigits : WriteChannels (withoutHash text) [r, g, b, a])
    (hchannels : c.HasChannels r g b (.ofQuotient a 255))
    (hmade : make (.int r) (.int g) (.int b) (.float (.ofQuotient a 255)) (some text) = .ok c)

theorem make_bytes (red green blue : UInt8) {x : Binary64} (hlow : 0 ≤ x) (hhigh : x ≤ 1)
    (spelling : Option String) :
    make (.int red.toNat) (.int green.toNat) (.int blue.toNat) (.float x) spelling =
      .ok ⟨red, green, blue, x, spelling⟩ := by
  have hx : (Magnitude.float x).toFloat = .ok x := rfl
  rw [make, roundChannel_byte, roundChannel_byte, roundChannel_byte, hx]
  change Except.ok (Color.mk red green blue (clampAlpha x) spelling) = _
  rw [clampAlpha_of_between hlow hhigh]

theorem hasChannels_ofNat {r g b : Nat} (hle : ∀ n ∈ [r, g, b], n ≤ 255) (x : Binary64)
    (spelling : Option String) :
    HasChannels ⟨.ofNat r, .ofNat g, .ofNat b, x, spelling⟩ r g b x := by
  have hbyte (n : Nat) (hn : n ∈ [r, g, b]) : (UInt8.ofNat n).toNat = n := by
    have hn := hle n hn
    rw [UInt8.toNat_ofNat']
    omega
  exact ⟨hbyte r (by simp), hbyte g (by simp), hbyte b (by simp), rfl⟩

theorem HasChannels.make_eq {c : Color} {r g b : Nat} {x : Binary64} (h : c.HasChannels r g b x)
    (hlow : 0 ≤ x) (hhigh : x ≤ 1) :
    make (.int r) (.int g) (.int b) (.float x) c.spelling = .ok c := by
  obtain ⟨rfl, rfl, rfl, rfl⟩ := h
  exact make_bytes c.red c.green c.blue hlow hhigh c.spelling

theorem isWrittenBy_of_ofHex? {text : String} {c : Color} (h : ofHex? text = some c) :
    c.IsWrittenBy text := by
  obtain ⟨values, hvalues, hc⟩ := ofHex?_eq_some_iff.mp h
  obtain ⟨-, hzeroOne, hone, -⟩ := bounds_ordered
  have hle := hvalues.le
  unfold ofBytes? at hc
  split at hc
  · next r g b =>
    cases hc
    have hchannels := hasChannels_ofNat hle 1 (some text)
    exact .solid hvalues hchannels (hchannels.make_eq hzeroOne hone)
  · next r g b a =>
    cases hc
    have hsub : [r, g, b] ⊆ [r, g, b, a] := List.subset_append_left [r, g, b] [a]
    have hle' : ∀ n ∈ [r, g, b], n ≤ 255 := fun n hn => hle n (hsub hn)
    have hchannels := hasChannels_ofNat hle' (.ofQuotient a 255) (some text)
    have hbetween : 0 ≤ Binary64.ofQuotient a 255 ∧ Binary64.ofQuotient a 255 ≤ 1 :=
      Binary64.ofQuotient_between (by decide) (hle a (by simp))
    exact .translucent hvalues hchannels (hchannels.make_eq hbetween.1 hbetween.2)
  · cases hc

/-- Behind a hash or without one the text has three, four, six or eight hexadecimal digits. -/
def IsHexText (text : String) : Prop :=
  (withoutHash text).length ∈ [3, 4, 6, 8] ∧ ∀ d ∈ withoutHash text, IsHexDigit d

theorem exists_ofHex?_iff {text : String} : (∃ c, ofHex? text = some c) ↔ IsHexText text := by
  rw [IsHexText, ← exists_writeChannels_iff]
  constructor
  · rintro ⟨c, h⟩
    obtain ⟨values, hvalues, -⟩ := ofHex?_eq_some_iff.mp h
    exact ⟨values, hvalues⟩
  · rintro ⟨values, h⟩
    have hcount := h.length_values
    match values, hcount with
    | [r, g, b], _ => exact ⟨_, ofHex?_eq_some_iff.mpr ⟨_, h, rfl⟩⟩
    | [r, g, b, a], _ => exact ⟨_, ofHex?_eq_some_iff.mpr ⟨_, h, rfl⟩⟩

end Color

/-! ## Reading -/

namespace Source

open Color (withoutHash)

variable {digits : List Char}

theorem tokens_hash (hne : digits ≠ []) (h : ∀ d ∈ digits, d.isAlphanum = true) :
    tokens (.expression false) ('#' :: digits) = [.hash (String.ofList ('#' :: digits))] := by
  have hnumber : number? ('#' :: digits) = none := rfl
  have hword : spanWord? ('#' :: digits) = none := rfl
  have hspan : digits.span Char.isAlphanum = (digits, []) := by
    rw [List.span_eq_takeWhile_dropWhile, List.takeWhile_eq_self_iff.mpr h,
      List.dropWhile_eq_nil_iff.mpr h]
  have htoken : exprToken? ('#' :: digits) =
      some (.hash (String.ofList ('#' :: digits)), []) := by
    have hempty : digits.isEmpty = false := List.isEmpty_eq_false_iff.mpr hne
    simp only [exprToken?, hnumber, hword, hspan, hempty]
    rfl
  rw [tokens_of_exprToken rfl htoken rfl, tokens_nil]

/-- A text of a colour that begins with a hash is one token, and that colour as an expression. -/
theorem readExpr_of_ofHex? {text : String} {c : Color} (h : Color.ofHex? text = some c)
    (hhash : text.toList = '#' :: withoutHash text) :
    tokens (.expression false) text.toList = [.hash text] ∧
      readExpr text = .ok (.literal (.color c)) := by
  obtain ⟨hlength, hdigits⟩ := Color.exists_ofHex?_iff.mp ⟨c, h⟩
  have hne : withoutHash text ≠ [] := by
    intro hnil
    rw [hnil] at hlength
    revert hlength
    decide
  have htokens := tokens_hash hne fun d hd => (hdigits d hd).isAlphanum
  rw [← hhash, String.ofList_toList] at htokens
  refine ⟨htokens, ?_⟩
  have hpush : Reading.push? .start (.hash text) =
      some (Reading.start.focusOn (.literal (.color c))) := by
    simp only [Reading.push?, Reading.start, Reading.begin?, h, Option.or]
  rw [readExpr_eq_ok_iff, htokens, pushAll_cons, hpush]
  exact ⟨_, rfl, rfl, rfl⟩

end Source

namespace Color

open Number (Magnitude)
open Text (IsHexDigit hasHexValue_hexDigit)

/-- The text of the colour is decoded, and is read where an expression stands as one token, in both
ways as a colour that is the same. -/
structure IsReadBack (c : Color) : Prop where
  decoded : ∃ d, ofHex? c.css = some d ∧ d.same c = true
  oneToken : Source.tokens (.expression false) c.css.toList = [.hash c.css]
  read : ∃ d, Source.readExpr c.css = .ok (.literal (.color d)) ∧ d.same c = true

theorem writeBytes_hex (b : UInt8) {rest : List Char} {values : List Nat}
    (h : WriteBytes rest values) :
    WriteBytes (Text.hex 2 b.toNat ++ rest) (b.toNat :: values) := by
  have hb := b.toNat_lt
  have hsum : 16 * (b.toNat / 16 % 16) + b.toNat % 16 = b.toNat := by omega
  have hpair : WriteBytes (Text.hex 2 b.toNat ++ rest)
      ((16 * (b.toNat / 16 % 16) + b.toNat % 16) :: values) :=
    .cons (hasHexValue_hexDigit (Nat.mod_lt _ (by decide)))
      (hasHexValue_hexDigit (Nat.mod_lt _ (by decide))) h
  rwa [hsum] at hpair

theorem toList_css {c : Color} (hs : c.spelling = none) (ha : c.alpha = 1) :
    c.css.toList = '#' :: (Text.hex 2 c.red.toNat ++ (Text.hex 2 c.green.toNat ++
      (Text.hex 2 c.blue.toNat ++ []))) := by
  obtain ⟨-, -, hone, -⟩ := bounds_ordered
  have hsolid : 1 ≤ c.alpha := by rwa [ha]
  rw [css, hs]
  dsimp only
  rw [if_pos hsolid, String.toList_ofList]
  rfl

theorem isReadBack {c : Color} (hs : c.spelling = none) (ha : c.alpha = 1) : c.IsReadBack := by
  have hcss := toList_css hs ha
  have hwithout : withoutHash c.css = Text.hex 2 c.red.toNat ++ (Text.hex 2 c.green.toNat ++
      (Text.hex 2 c.blue.toNat ++ [])) := by
    rw [withoutHash, hcss]
    rfl
  have hchannels :
      WriteChannels (withoutHash c.css) [c.red.toNat, c.green.toNat, c.blue.toNat] := by
    rw [hwithout]
    exact .long (Or.inl rfl)
      (writeBytes_hex c.red (writeBytes_hex c.green (writeBytes_hex c.blue .nil)))
  have hdecoded : ofHex? c.css = some { c with spelling := some c.css } := by
    refine ofHex?_eq_some_iff.mpr ⟨_, hchannels, ?_⟩
    simp only [ofBytes?, UInt8.ofNat_toNat, ha]
  have hsame : Color.same { c with spelling := some c.css } c = true := by
    have hone : Magnitude.same (.float 1) (.float 1) = true := by decide +kernel
    simp only [same, ha, hone, beq_self_eq_true, Bool.and_self]
  obtain ⟨htoken, hread⟩ := Source.readExpr_of_ofHex? hdecoded (by rw [hwithout, hcss])
  exact ⟨⟨_, hdecoded, hsame⟩, htoken, ⟨_, hread, hsame⟩⟩

/-- Of the texts just those of so many hexadecimal digits are decoded, to the colours that their
digits write, and what is shown of an opaque colour without a spelling is read back. -/
theorem ofHex?_decodes_css :
    (∀ text, ((∃ c, ofHex? text = some c) ↔ IsHexText text) ∧
        ∀ c, ofHex? text = some c → c.IsWrittenBy text) ∧
      ∀ c : Color, c.spelling = none → c.alpha = 1 → c.IsReadBack := by
  constructor
  · intro text
    exact ⟨exists_ofHex?_iff, fun c h => isWrittenBy_of_ofHex? h⟩
  · intro c hs ha
    exact isReadBack hs ha

/-- A short form in both cases of letters with an opacity, and a channel that is padded. -/
theorem ofHex?_decodes_css_violet :
    (∃ c, ofHex? "#8a0F" = some c ∧ c.IsWrittenBy "#8a0F") ∧
      (Color.mk 10 0 255 1 none).spelling = none ∧ (Color.mk 10 0 255 1 none).alpha = 1 ∧
      (Color.mk 10 0 255 1 none).css = "#0a00ff" ∧ (Color.mk 10 0 255 1 none).IsReadBack := by
  have hsub : withoutHash "#8a0F" ⊆ "0123456789abcdefABCDEF".toList := by decide
  have hdigits : IsHexText "#8a0F" := ⟨by decide, fun d hd => hsub hd⟩
  obtain ⟨hread, hwritten⟩ := ofHex?_decodes_css.1 "#8a0F"
  obtain ⟨c, hc⟩ := hread.mpr hdigits
  have hcss : (Color.mk 10 0 255 1 none).css = "#0a00ff" := by decide +kernel
  exact ⟨⟨c, hc, hwritten c hc⟩, rfl, rfl, hcss, ofHex?_decodes_css.2 _ rfl rfl⟩

end Color

end SassData
