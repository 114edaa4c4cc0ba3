import Mathlib.Algebra.Order.Field.Rat
import Mathlib.Data.List.DropRight
import Mathlib.Tactic.Linarith
import Mathlib.Tactic.NormNum
import Mathlib.Tactic.Positivity
import Mathlib.Tactic.Ring
import SassData.Proofs.Number.NumberOrder
import SassData.Proofs.Source.TokenSuffixes

/-!
# Decimals of style sheets

A finite magnitude is written as a decimal in canonical form. All its forms come from one: the
numeral of a count of units of the last decimal place, cut off behind the last digit that is not
zero. An integer is written exactly. A floating-point number near an integer is written as that
integer and any other one is rounded, and both are wrong by no more than half a unit of the last
place.
-/

namespace SassData.Number

set_option autoImplicit false

/-- A decimal without a superfluous zero in front or behind, and with a sign only if it is not
zero. -/
structure Decimal where
  negative : Bool
  whole : List Char
  fraction : List Char
  isDigit : ∀ c ∈ whole ++ fraction, c.isDigit = true
  whole_ne_nil : whole ≠ []
  head_whole : whole.head? = some '0' → whole = ['0']
  length_fraction : fraction.length ≤ 10
  last_fraction : fraction.getLast? ≠ some '0'
  not_zero : negative = true → ∃ c ∈ whole ++ fraction, c ≠ '0'

namespace Decimal

def point (d : Decimal) : List Char := if d.fraction.isEmpty then [] else '.' :: d.fraction

def body (d : Decimal) : List Char := d.whole ++ d.point

def text (d : Decimal) : String := String.ofList (if d.negative then '-' :: d.body else d.body)

def size (d : Decimal) : ℚ :=
  Nat.ofDigitChars 10 d.whole 0 + Nat.ofDigitChars 10 d.fraction 0 / 10 ^ d.fraction.length

def value (d : Decimal) : ℚ := if d.negative then -d.size else d.size

/-! ## What a text denotes -/

theorem span_body (d : Decimal) : d.body.span Char.isDigit = (d.whole, d.point) := by
  have hpoint : d.point.span Char.isDigit = ([], d.point) := by
    rw [point]
    split <;> rfl
  have hwhole : ∀ c ∈ d.whole, c.isDigit = true := by
    intro c hc
    exact d.isDigit c (List.mem_append_left _ hc)
  rw [body, Source.span_append hwhole, hpoint, List.append_nil]

theorem body_ne_minus (d : Decimal) (rest : List Char) : d.body ≠ '-' :: rest := by
  intro h
  have hspan := d.span_body
  rw [h] at hspan
  exact d.whole_ne_nil (congrArg Prod.fst hspan).symm

theorem point_eq_iff {d e : Decimal} : d.point = e.point ↔ d.fraction = e.fraction := by
  rw [point, point]
  cases d.fraction <;> cases e.fraction <;> simp

theorem text_injective : Function.Injective text := by
  intro d e h
  have hchars := String.ofList_injective h
  have hparts : d.negative = e.negative ∧ d.body = e.body := by
    cases hd : d.negative <;> cases he : e.negative <;> rw [hd, he] at hchars
    · exact ⟨rfl, hchars⟩
    · exact absurd hchars (d.body_ne_minus _)
    · exact absurd hchars.symm (e.body_ne_minus _)
    · exact ⟨rfl, (List.cons.inj hchars).2⟩
  have hspan := d.span_body
  rw [hparts.2, e.span_body, Prod.mk.injEq] at hspan
  have hfraction := point_eq_iff.mp hspan.2
  cases d
  cases e
  simp only [mk.injEq]
  exact ⟨hparts.1, hspan.1.symm, hfraction.symm⟩

theorem text_ne_minus_zero (d : Decimal) : d.text ≠ "-0" := by
  intro h
  have hchars : (if d.negative then '-' :: d.body else d.body) = ['-', '0'] :=
    String.ofList_injective h
  split at hchars
  · next hnegative =>
    -- Behind the sign there is one digit, and it is zero.
    have hspan := d.span_body
    rw [(List.cons.inj hchars).2] at hspan
    obtain ⟨hwhole, hpoint⟩ := Prod.mk.inj hspan
    obtain ⟨c, hc, hne⟩ := d.not_zero hnegative
    have hfraction : d.fraction = [] := by
      rw [point] at hpoint
      split at hpoint
      · next hempty => exact List.isEmpty_iff.mp hempty
      · cases hpoint
    rw [← hwhole, hfraction, List.append_nil] at hc
    exact hne (List.mem_singleton.mp hc)
  · exact d.body_ne_minus _ hchars

end Decimal

/-! ## Digits -/

theorem toList_toString (n : Nat) : (toString n).toList = Nat.toDigits 10 n := by simp

theorem head_toDigits (n : Nat) (h : (Nat.toDigits 10 n).head? = some '0') :
    Nat.toDigits 10 n = ['0'] := by
  induction n using Nat.strongRecOn with
  | ind n ih =>
    rw [Nat.toDigits_eq_if (by decide)] at h ⊢
    split at h
    · next hn =>
      rw [if_pos hn]
      exact congrArg (fun c => [c]) (Option.some.inj h)
    · next hn =>
      -- The digits in front are those of a number that is not zero.
      rw [List.head?_append_of_ne_nil _ Nat.toDigits_ne_nil] at h
      have hzero : Nat.ofDigitChars 10 (Nat.toDigits 10 (n / 10)) 0 = 0 := by
        rw [ih (n / 10) (by omega) h]
        rfl
      rw [Nat.ofDigitChars_ten_toDigits] at hzero
      omega

theorem ofDigitChars_of_zeros {digits : List Char} (h : ∀ c ∈ digits, c = '0') :
    Nat.ofDigitChars 10 digits 0 = 0 := by
  rw [List.eq_replicate_of_mem h, Nat.ofDigitChars_replicate_zero, Nat.mul_zero]

/-! ## The places of a number -/

theorem cast_tenPow_places : ((tenPow places : ℕ) : ℚ) = 10 ^ places := Nat.cast_pow 10 places

def paddedDigits (n : Nat) : List Char :=
  let digits := Nat.toDigits 10 (n % tenPow places)
  List.replicate (places - digits.length) '0' ++ digits

theorem fractionDigits_eq (n : Nat) :
    fractionDigits n = (paddedDigits n).rdropWhile (· == '0') := by
  rw [fractionDigits, toList_toString]
  rfl

theorem length_paddedDigits (n : Nat) : (paddedDigits n).length = places := by
  have hlt : n % tenPow places < 10 ^ places := Nat.mod_lt _ (by decide)
  have hlength := (Nat.length_toDigits_le_iff (by decide) (by decide)).mpr hlt
  rw [paddedDigits, List.length_append, List.length_replicate]
  exact Nat.sub_add_cancel hlength

theorem isDigit_of_mem_paddedDigits {n : Nat} {c : Char} (h : c ∈ paddedDigits n) :
    c.isDigit = true := by
  rcases List.mem_append.mp h with hzero | hdigit
  · rw [List.eq_of_mem_replicate hzero]
    decide
  · exact Nat.isDigit_of_mem_toDigits (by decide) (by decide) hdigit

theorem ofDigitChars_paddedDigits (n : Nat) :
    Nat.ofDigitChars 10 (paddedDigits n) 0 = n % tenPow places := by
  rw [paddedDigits, Nat.ofDigitChars_append, Nat.ofDigitChars_replicate_zero, Nat.mul_zero,
    Nat.ofDigitChars_ten_toDigits]

theorem paddedDigits_eq_append (n : Nat) :
    ∃ k, paddedDigits n = fractionDigits n ++ List.replicate k '0' := by
  have hzeros : ∀ c ∈ (paddedDigits n).rtakeWhile (· == '0'), c = '0' := by
    intro c hc
    exact beq_iff_eq.mp (List.mem_rtakeWhile_imp (p := (· == '0')) hc)
  refine ⟨((paddedDigits n).rtakeWhile (· == '0')).length, ?_⟩
  rw [← List.eq_replicate_of_mem hzeros, fractionDigits_eq, List.rdropWhile_append_rtakeWhile]

theorem getLast?_fractionDigits (n : Nat) : (fractionDigits n).getLast? ≠ some '0' := by
  intro h
  rw [fractionDigits_eq] at h
  have hne : (paddedDigits n).rdropWhile (· == '0') ≠ [] := by
    intro hnil
    rw [hnil] at h
    cases h
  rw [List.getLast?_eq_some_getLast hne] at h
  apply List.rdropWhile_last_not _ _ hne
  rw [Option.some.inj h]
  rfl

theorem length_fractionDigits_le (n : Nat) : (fractionDigits n).length ≤ places := by
  obtain ⟨k, hk⟩ := paddedDigits_eq_append n
  have hlength := length_paddedDigits n
  rw [hk, List.length_append] at hlength
  omega

/-- The places count for as much with the zeros as without them. -/
theorem ofDigitChars_fractionDigits (n : Nat) :
    Nat.ofDigitChars 10 (fractionDigits n) 0 * 10 ^ (places - (fractionDigits n).length) =
      n % tenPow places := by
  obtain ⟨k, hk⟩ := paddedDigits_eq_append n
  have hlength := length_paddedDigits n
  rw [hk, List.length_append, List.length_replicate] at hlength
  have hrest : places - (fractionDigits n).length = k := by omega
  rw [hrest, ← ofDigitChars_paddedDigits, hk, Nat.ofDigitChars_append,
    Nat.ofDigitChars_replicate_zero, Nat.mul_comm]

namespace Decimal

/-- The decimal of a count of units of the last place. -/
def ofPlaces (negative : Bool) (n : Nat) : Decimal where
  negative := negative && n != 0
  whole := Nat.toDigits 10 (n / tenPow places)
  fraction := fractionDigits n
  isDigit c hc := by
    rcases List.mem_append.mp hc with hwhole | hfraction
    · exact Nat.isDigit_of_mem_toDigits (by decide) (by decide) hwhole
    · obtain ⟨k, hk⟩ := paddedDigits_eq_append n
      apply isDigit_of_mem_paddedDigits
      rw [hk]
      exact List.mem_append_left _ hfraction
  whole_ne_nil := Nat.toDigits_ne_nil
  head_whole := head_toDigits _
  length_fraction := length_fractionDigits_le n
  last_fraction := getLast?_fractionDigits n
  not_zero h := by
    by_contra hall
    simp only [not_exists, not_and, not_not, List.forall_mem_append] at hall
    have hwhole := ofDigitChars_of_zeros hall.1
    have hfraction := ofDigitChars_fractionDigits n
    rw [Nat.ofDigitChars_ten_toDigits] at hwhole
    rw [ofDigitChars_of_zeros hall.2, Nat.zero_mul] at hfraction
    have hzero : n = 0 := by
      have hsplit := Nat.div_add_mod n (tenPow places)
      rw [hwhole, ← hfraction] at hsplit
      exact hsplit.symm
    rw [hzero] at h
    cases negative <;> cases h

theorem text_ofPlaces (negative : Bool) (n : Nat) :
    (ofPlaces negative n).text = fixedText negative n := by
  rw [fixedText, toList_toString]
  rfl

theorem size_ofPlaces (negative : Bool) (n : Nat) :
    (ofPlaces negative n).size = n / 10 ^ places := by
  have hten : (10 : ℚ) ≠ 0 := by norm_num
  have hplaces : (Nat.ofDigitChars 10 (fractionDigits n) 0 : ℚ) / 10 ^ (fractionDigits n).length =
      (n % tenPow places : ℕ) / 10 ^ places := by
    rw [div_eq_div_iff (pow_ne_zero _ hten) (pow_ne_zero _ hten),
      ← ofDigitChars_fractionDigits, Nat.cast_mul, Nat.cast_pow, Nat.cast_ofNat, mul_assoc,
      pow_sub_mul_pow _ (length_fractionDigits_le n)]
  have hsplit := congrArg (Nat.cast : ℕ → ℚ) (Nat.div_add_mod n (tenPow places))
  rw [Nat.cast_add, Nat.cast_mul, cast_tenPow_places] at hsplit
  rw [size, ofPlaces, hplaces, Nat.ofDigitChars_ten_toDigits, ← hsplit, add_div,
    mul_div_cancel_left₀ _ (pow_ne_zero _ hten)]

theorem value_ofPlaces (negative : Bool) (n : Nat) :
    (ofPlaces negative n).value =
      if negative then -(n / 10 ^ places : ℚ) else n / 10 ^ places := by
  rw [value, size_ofPlaces]
  by_cases hn : n = 0
  · rw [hn, Nat.cast_zero, zero_div, neg_zero, ite_self, ite_self]
  · have hnonzero : (n != 0) = true := bne_iff_ne.mpr hn
    have hsign : (negative && n != 0) = negative := by rw [hnonzero, Bool.and_true]
    simp only [ofPlaces, hsign]

end Decimal

/-! ## Numerals of style sheets -/

theorem fractionDigits_mul (k : Nat) : fractionDigits (k * tenPow places) = [] := by
  rw [fractionDigits, Nat.mul_mod_left]
  rfl

theorem fixedText_mul (negative : Bool) (k : Nat) :
    fixedText negative (k * tenPow places) =
      if negative && k != 0 then "-" ++ toString k else toString k := by
  have hpos : 0 < tenPow places := by decide
  have hwhole : k * tenPow places / tenPow places = k := Nat.mul_div_cancel k hpos
  have hzero : (k * tenPow places != 0) = (k != 0) := by
    rw [Bool.eq_iff_iff, bne_iff_ne, bne_iff_ne, ne_eq, ne_eq, Nat.mul_eq_zero]
    omega
  simp only [fixedText, fractionDigits_mul, hwhole, hzero, List.isEmpty_nil, if_true,
    List.append_nil]
  split
  · exact String.toList_inj.mp (by simp)
  · exact String.ofList_toList

theorem toString_int_eq (n : Int) :
    toString n = fixedText (decide (n < 0)) (n.natAbs * tenPow places) := by
  rw [fixedText_mul]
  cases n with
  | ofNat k => rfl
  | negSucc k =>
    rw [decide_eq_true (Int.negSucc_lt_zero k)]
    rfl

theorem Decimal.value_ofInt (n : Int) :
    (ofPlaces (decide (n < 0)) (n.natAbs * tenPow places)).value = n := by
  have hten : (10 ^ places : ℚ) ≠ 0 := by positivity
  rw [value_ofPlaces, Nat.cast_mul, cast_tenPow_places, mul_div_cancel_right₀ _ hten]
  cases n with
  | ofNat k => rfl
  | negSucc k =>
    rw [decide_eq_true (Int.negSucc_lt_zero k), if_pos rfl, Int.cast_negSucc]
    rfl

/-! ## How near the decimal is -/

/-- A unit of the last place counts for so much that the tolerance is a fraction of its half. -/
theorem exists_tolerance : ∃ t ht, Magnitude.tolerance = .float (.finite false t ht) ∧
    2 * (t * tenPow places) ≤ unitsInOne := by
  have hsmall : roundBits (1 * unitsInOne) (tenPow 11) < unitsBound := by decide +kernel
  refine ⟨roundBits (1 * unitsInOne) (tenPow 11), ⟨fits_roundBits _ _, Nat.not_le_of_lt hsmall⟩,
    ?_, by decide +kernel⟩
  have hquotient : Binary64.ofQuotient 1 (tenPow 11) =
      Binary64.nearest false (1 * unitsInOne) (tenPow 11) :=
    Binary64.ofQuotient_natCast 1 (tenPow 11)
  rw [Magnitude.tolerance, hquotient, Binary64.nearest, dif_pos hsmall]

namespace Binary64

variable {x y : Binary64}

/-- What is close by the rounded difference is close. -/
theorem near_of_close (hx : x.isFinite = true) (hy : y.isFinite = true)
    (h : (Magnitude.float (x - y)).abs.lt Magnitude.tolerance = true) :
    2 * ((x.signedUnits - y.signedUnits).natAbs * tenPow places) ≤ unitsInOne := by
  by_cases hunits : x.signedUnits = y.signedUnits
  · rw [hunits, Int.sub_self]
    exact Nat.zero_le _
  · obtain ⟨t, ht, htolerance, hbound⟩ := exists_tolerance
    rw [sub_of_signedUnits_ne hx hy hunits, ofUnits, nearest, htolerance] at h
    have hlt : (x.signedUnits - y.signedUnits).natAbs < t := by
      split at h
      · have hround := Int.ofNat_lt.mp ((lt_iff rfl rfl).mp (of_decide_eq_true h))
        by_contra hle
        have hkept := le_roundBits_of_fits ht.fits (Nat.not_lt.mp hle)
        exact Nat.not_lt.mpr hkept hround
      · cases h
    refine Nat.le_trans ?_ hbound
    exact Nat.mul_le_mul_left 2 (Nat.mul_le_mul_right _ (Nat.le_of_lt hlt))

theorem natAbs_signed_sub (s : Bool) (u v : Nat) :
    ((if s then -(u : Int) else u) - (if s then -(v : Int) else v)).natAbs =
      ((u : Int) - v).natAbs := by
  cases s with
  | false => rfl
  | true =>
    rw [if_pos rfl, if_pos rfl]
    omega

theorem near_of_natAbs {u v scale bound : Nat}
    (h : 2 * (((u : Int) - v).natAbs * scale) ≤ bound) :
    2 * (v * scale) ≤ 2 * (u * scale) + bound ∧ 2 * (u * scale) ≤ 2 * (v * scale) + bound := by
  generalize hd : ((u : Int) - v).natAbs = d at h
  have hu : u * scale ≤ (v + d) * scale := Nat.mul_le_mul_right scale (by omega)
  have hv : v * scale ≤ (u + d) * scale := Nat.mul_le_mul_right scale (by omega)
  rw [Nat.add_mul] at hu hv
  omega

theorem signedUnits_ofInt_round (s : Bool) {u : Nat} (hu : InFormat u) :
    (ofInt (if s then -(roundQuotient u unitsInOne : Int)
      else roundQuotient u unitsInOne)).isFinite = true ∧
    (ofInt (if s then -(roundQuotient u unitsInOne : Int)
      else roundQuotient u unitsInOne)).signedUnits =
        if s then -((roundQuotient u unitsInOne * unitsInOne : Nat) : Int)
        else (roundQuotient u unitsInOne * unitsInOne : Nat) := by
  have hformat := inFormat_roundQuotient hu
  generalize roundQuotient u unitsInOne = k at hformat
  cases s with
  | false =>
    obtain ⟨hfinite, hunits⟩ := @signedUnits_ofInt_of_inFormat k hformat
    refine ⟨hfinite, hunits.trans ?_⟩
    rw [if_neg Bool.false_ne_true, Int.natCast_mul]
  | true =>
    have hnegative : InFormat ((-(k : Int)).natAbs * unitsInOne) := by
      rwa [Int.natAbs_neg, Int.natAbs_natCast]
    obtain ⟨hfinite, hunits⟩ := signedUnits_ofInt_of_inFormat hnegative
    refine ⟨hfinite, hunits.trans ?_⟩
    rw [if_pos rfl, Int.natCast_mul, Int.neg_mul]

/-- A number is written as the numeral of a count of units of the last place, which is wrong by no
more than a half. -/
theorem exists_styleText_eq (s : Bool) {u : Nat} (hu : InFormat u) :
    ∃ n, (finite s u hu).styleText = fixedText s n ∧
      2 * (n * unitsInOne) ≤ 2 * (u * tenPow places) + unitsInOne ∧
      2 * (u * tenPow places) ≤ 2 * (n * unitsInOne) + unitsInOne := by
  obtain ⟨hfinite, hunits⟩ := signedUnits_ofInt_round s hu
  simp only [styleText, ← fixedText_mul]
  generalize ofInt _ = whole at hfinite hunits ⊢
  by_cases hclose : Magnitude.lt (.float (finite s u hu - whole).abs) Magnitude.tolerance = true
  · have hnear := near_of_close rfl hfinite hclose
    rw [hunits, signedUnits, natAbs_signed_sub] at hnear
    rw [if_pos hclose]
    refine ⟨_, rfl, ?_⟩
    rw [Nat.mul_right_comm]
    exact near_of_natAbs hnear
  · rw [if_neg hclose]
    exact ⟨_, rfl, roundQuotient_near (twoPow_pos 1074)⟩

end Binary64

/-! ## What is denoted -/

/-- The rational number that a floating-point number is, if it is finite. -/
def Binary64.value (x : Binary64) : ℚ := x.signedUnits / unitsInOne

def Magnitude.value : Magnitude → ℚ
  | int n => n
  | float x => x.value

theorem value_finite (s : Bool) {u : Nat} (hu : InFormat u) :
    (Binary64.finite s u hu).value = if s then -(u / unitsInOne : ℚ) else u / unitsInOne := by
  cases s with
  | false => rw [Binary64.value, Binary64.signedUnits, if_neg Bool.false_ne_true, Int.cast_natCast,
      if_neg Bool.false_ne_true]
  | true => rw [Binary64.value, Binary64.signedUnits, if_pos rfl, Int.cast_neg, Int.cast_natCast,
      neg_div, if_pos rfl]

/-- Counts of units that differ by no more than half a unit of the last place, as quotients. -/
theorem abs_div_sub_div_le {n u : Nat}
    (hle : 2 * (n * unitsInOne) ≤ 2 * (u * tenPow places) + unitsInOne)
    (hge : 2 * (u * tenPow places) ≤ 2 * (n * unitsInOne) + unitsInOne) :
    |(n / 10 ^ places : ℚ) - u / unitsInOne| ≤ 5 / 10 ^ 11 := by
  have hpos : (0 : ℚ) < unitsInOne := Nat.cast_pos.mpr (twoPow_pos 1074)
  have hten : (0 : ℚ) < 10 ^ places := by positivity
  have hhalf : (5 / 10 ^ 11 : ℚ) = 1 / (2 * 10 ^ places) := by norm_num [places]
  have hlow : (2 * (n * unitsInOne) : ℚ) ≤ 2 * (u * 10 ^ places) + unitsInOne := by
    rw [← cast_tenPow_places]
    exact_mod_cast hle
  have hhigh : (2 * (u * 10 ^ places) : ℚ) ≤ 2 * (n * unitsInOne) + unitsInOne := by
    rw [← cast_tenPow_places]
    exact_mod_cast hge
  have hdiff : |(n * unitsInOne - 10 ^ places * u : ℚ)| ≤ unitsInOne / 2 := by
    rw [abs_le]
    constructor <;> linarith
  rw [hhalf, div_sub_div _ _ hten.ne' hpos.ne', abs_div, abs_of_pos (mul_pos hten hpos),
    div_le_div_iff₀ (mul_pos hten hpos) (mul_pos two_pos hten)]
  calc
    |(n * unitsInOne - 10 ^ places * u : ℚ)| * (2 * 10 ^ places) ≤
        unitsInOne / 2 * (2 * 10 ^ places) := by gcongr
    _ = 1 * (10 ^ places * unitsInOne) := by ring

/-- Every form in which a number is written is that of a count of units of the last place. -/
theorem Binary64.exists_ofPlaces {x : Binary64} (hx : x.isFinite = true) :
    ∃ s n, x.styleText = (Decimal.ofPlaces s n).text ∧
      |(Decimal.ofPlaces s n).value - x.value| ≤ 5 / 10 ^ 11 := by
  obtain ⟨s, u, hu, rfl⟩ := eq_finite hx
  obtain ⟨n, htext, hle, hge⟩ := exists_styleText_eq s hu
  have hdistance := abs_div_sub_div_le hle hge
  refine ⟨s, n, htext.trans (Decimal.text_ofPlaces s n).symm, ?_⟩
  rw [Decimal.value_ofPlaces, value_finite]
  cases s with
  | false => exact hdistance
  | true =>
    rw [if_pos rfl, if_pos rfl, neg_sub_neg, abs_sub_comm]
    exact hdistance

/-- A finite magnitude is written as one decimal in canonical form, which is never minus zero and is
wrong by no more than half a unit of the last place. An integer is written exactly. -/
theorem Magnitude.existsUnique_decimal {a : Magnitude} (ha : a.isFinite = true) :
    (∃! d : Decimal, a.styleText = d.text) ∧ a.styleText ≠ "-0" ∧
      ∀ d : Decimal, a.styleText = d.text →
        |d.value - a.value| ≤ 5 / 10 ^ 11 ∧ ∀ n, a = .int n → d.fraction = [] ∧ d.value = n := by
  obtain ⟨d, htext, hnear, hexact⟩ : ∃ d : Decimal, a.styleText = d.text ∧
      |d.value - a.value| ≤ 5 / 10 ^ 11 ∧ ∀ n, a = .int n → d.fraction = [] ∧ d.value = n := by
    cases a with
    | int m =>
      have hvalue := Decimal.value_ofInt m
      have hfraction := fractionDigits_mul m.natAbs
      refine ⟨Decimal.ofPlaces (decide (m < 0)) (m.natAbs * tenPow places), ?_, ?_, ?_⟩
      · exact (toString_int_eq m).trans (Decimal.text_ofPlaces _ _).symm
      · rw [hvalue, Magnitude.value, sub_self, abs_zero]
        positivity
      · intro n hn
        obtain rfl := Magnitude.int.inj hn
        exact ⟨hfraction, hvalue⟩
    | float x =>
      obtain ⟨s, n, htext, hnear⟩ := Binary64.exists_ofPlaces ha
      exact ⟨_, htext, hnear, nofun⟩
  refine ⟨⟨d, htext, ?_⟩, ?_, ?_⟩
  · intro e he
    exact Decimal.text_injective (he.symm.trans htext)
  · rw [htext]
    exact d.text_ne_minus_zero
  · intro e he
    obtain rfl := Decimal.text_injective (he.symm.trans htext)
    exact ⟨hnear, hexact⟩

def negativeThird : Binary64 := .ofQuotient (-1) 3

theorem existsUnique_decimal_third :
    (Magnitude.float negativeThird).isFinite = true ∧
    (∃! d : Decimal, "-0.3333333333" = d.text) ∧
    ∀ d : Decimal, "-0.3333333333" = d.text → |d.value - negativeThird.value| ≤ 5 / 10 ^ 11 := by
  have hfinite : (Magnitude.float negativeThird).isFinite = true := by decide +kernel
  have htext : (Magnitude.float negativeThird).styleText = "-0.3333333333" := by decide +kernel
  obtain ⟨hunique, -, hnear⟩ := Magnitude.existsUnique_decimal hfinite
  rw [htext] at hunique hnear
  exact ⟨hfinite, hunique, fun d hd => (hnear d hd).1⟩

/-- What comes to an integer by rounding is written without places, and what comes to zero without
a sign. -/
example : (Binary64.ofQuotient 29999999999999 10000000000000).styleText = "3" ∧
    (Binary64.ofQuotient (-1) 50000000000).styleText = "0" ∧
    (Binary64.ofQuotient 1234567890126 100000000000).styleText = "12.3456789013" := by
  decide +kernel

end SassData.Number
