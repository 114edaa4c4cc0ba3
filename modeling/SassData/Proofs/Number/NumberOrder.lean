import SassData.Proofs.Number.RoundingBounds
import SassData.Proofs.Number.UnitSums

/-!
# Order of numbers

The orders of the language go by the sign of the exact difference and its equality by a tolerance.
A difference of floating-point numbers has the sign of the exact one, so the orders are those of the
numbers. They form one order with the equality exactly if the two numbers can be subtracted and are
not so close that they count as equal and yet are not.
-/

namespace SassData

set_option autoImplicit false

namespace Number

/-! ## The sign of a difference -/

/-- The sign of the magnitude tells the order of two integers. -/
structure Magnitude.Tells (d : Magnitude) (j k : Int) : Prop where
  lt : d.lt 0 = true ↔ j < k
  gt : Magnitude.lt 0 d = true ↔ k < j
  eq : d.eq 0 = true ↔ j = k

theorem Magnitude.tells_of_units {d : Magnitude} {n j k : Int} (hd : d.point = .units n)
    (hlt : n < 0 ↔ j < k) (hgt : 0 < n ↔ k < j) : d.Tells j k := by
  have heq : n = 0 ↔ j = k := by omega
  have hzero : (0 : Int) = 0 * unitsInOne := (Int.zero_mul _).symm
  rw [hzero] at hlt hgt heq
  cases d with
  | int m =>
    cases hd
    have hpos : (0 : Int) < unitsInOne := Int.natCast_pos.mpr (twoPow_pos 1074)
    rw [Int.mul_lt_mul_right hpos] at hlt hgt
    rw [eq_iff_of_units] at heq
    exact ⟨decide_eq_true_iff.trans hlt, decide_eq_true_iff.trans hgt, beq_iff_eq.trans heq⟩
  | float x =>
    cases x with
    | finite s u hu =>
      cases hd
      exact ⟨decide_eq_true_iff.trans hlt, decide_eq_true_iff.trans hgt, beq_iff_eq.trans heq⟩
    | nan | infinity => cases hd

theorem Magnitude.tells_int (m n : Int) : (int (m - n)).Tells m n := by
  have hpos : (0 : Int) < unitsInOne := Int.natCast_pos.mpr (twoPow_pos 1074)
  have hsplit := Int.sub_mul m n unitsInOne
  apply tells_of_units rfl
  · rw [← Int.mul_lt_mul_right hpos (b := m)]
    omega
  · rw [← Int.mul_lt_mul_right hpos (b := n)]
    omega

namespace Binary64

variable {x y : Binary64}

theorem tells_ofUnits {j k : Int} (h : j ≠ k) :
    (Magnitude.float (ofUnits (j - k) 1)).Tells j k := by
  have hround : 0 < roundBits (j - k).natAbs 1 := Magnitude.roundBits_pos (by omega)
  have hsign : decide (j - k < 0) = decide (j < k) := decide_eq_decide.mpr (by omega)
  have hinfinity : ∀ negative, (Magnitude.float (infinity negative)).lt 0 = negative ∧
      Magnitude.lt 0 (.float (infinity negative)) = !negative ∧
        (Magnitude.float (infinity negative)).eq 0 = false := by
    decide
  rw [ofUnits, nearest, hsign]
  split
  · apply Magnitude.tells_of_units rfl
    · simp only [signedUnits, decide_eq_true_eq]
      split <;> omega
    · simp only [signedUnits, decide_eq_true_eq]
      split <;> omega
  · obtain ⟨hlt, hgt, heq⟩ := hinfinity (decide (j < k))
    constructor
    · rw [hlt, decide_eq_true_iff]
    · rw [hgt, Bool.not_eq_true', decide_eq_false_iff_not]
      omega
    · rw [heq]
      exact iff_of_false Bool.false_ne_true h

theorem sub_of_signedUnits_ne (hx : x.isFinite = true) (hy : y.isFinite = true)
    (h : x.signedUnits ≠ y.signedUnits) : x - y = ofUnits (x.signedUnits - y.signedUnits) 1 := by
  obtain ⟨s, u, hu, rfl⟩ := eq_finite hx
  obtain ⟨t, v, hv, rfl⟩ := eq_finite hy
  have hneg : (finite (!t) v hv).signedUnits = -(finite t v hv).signedUnits := by
    cases t <;> simp [signedUnits]
  have hsum : (finite s u hu).signedUnits + (finite (!t) v hv).signedUnits =
      (finite s u hu).signedUnits - (finite t v hv).signedUnits := by omega
  have hne : ((finite s u hu).signedUnits - (finite t v hv).signedUnits == 0) = false :=
    beq_false_of_ne (by omega)
  change add (finite s u hu) (finite (!t) v hv) = _
  rw [add, hsum, hne, if_neg Bool.false_ne_true]

theorem tells_sub (hx : x.isFinite = true) (hy : y.isFinite = true) :
    (Magnitude.float (x - y)).Tells x.signedUnits y.signedUnits := by
  by_cases h : x.signedUnits = y.signedUnits
  · obtain ⟨negative, hsub⟩ := sub_of_signedUnits hx hy h
    rw [hsub, h]
    have hzero : ∀ negative, (Magnitude.float (zero negative)).lt 0 = false ∧
        Magnitude.lt 0 (.float (zero negative)) = false ∧
        (Magnitude.float (zero negative)).eq 0 = true := by
      decide +kernel
    obtain ⟨hlt, hgt, heq⟩ := hzero negative
    constructor
    · simp [hlt]
    · simp [hgt]
    · simp [heq]
  · rw [sub_of_signedUnits_ne hx hy h]
    exact tells_ofUnits h

end Binary64

namespace Magnitude

variable {a b : Magnitude}

/-- The magnitudes are told apart by their difference, and yet it is within the tolerance. -/
def IsNear (a b : Magnitude) : Prop :=
  ∃ d, a.sub b = .ok d ∧ d.eq 0 = false ∧ d.abs.lt tolerance = true

/-- Both differences of two magnitudes tell one order, and what is not ordered is close. -/
def AreComparable (a b : Magnitude) : Prop :=
  ∃ j k d e, a.sub b = .ok d ∧ b.sub a = .ok e ∧ d.Tells j k ∧ e.Tells k j ∧
    (j = k → d.abs.lt tolerance = true)

theorem close_eq {d : Magnitude} (h : a.sub b = .ok d) : a.close b = .ok (d.abs.lt tolerance) := by
  rw [close, h]
  rfl

theorem sub_of_toFloat {x y : Binary64} (ha : a.toFloat = .ok x) (hb : b.toFloat = .ok y)
    (h : ∀ m n, a = .int m → b ≠ .int n) : a.sub b = .ok (.float (x - y)) := by
  unfold sub
  split
  · exact absurd rfl (h _ _ rfl)
  · rw [inFloat, ha, hb]
    rfl

theorem areComparable_of_toFloat {x y : Binary64} (ha : a.toFloat = .ok x) (hb : b.toFloat = .ok y)
    (hx : x.isFinite = true) (hy : y.isFinite = true) (h : ∀ m n, a = .int m → b ≠ .int n) :
    AreComparable a b := by
  have hab := sub_of_toFloat ha hb h
  have hba := sub_of_toFloat hb ha fun m n hb ha => h n m ha hb
  refine ⟨x.signedUnits, y.signedUnits, _, _, hab, hba, Binary64.tells_sub hx hy,
    Binary64.tells_sub hy hx, ?_⟩
  intro hunits
  have hclose := close_of_toFloat hab hx hy hunits
  rw [close_eq hab] at hclose
  exact Except.ok.inj hclose

theorem toFloat_of_not_tooLarge {n : Int} (h : ¬ IsTooLarge n) :
    (int n).toFloat = .ok (.ofInt n) ∧ (Binary64.ofInt n).isFinite = true := by
  rw [IsTooLarge, Bool.not_eq_false] at h
  rw [toFloat, if_pos h]
  exact ⟨rfl, h⟩

theorem areComparable (ha : a.isFinite = true) (hb : b.isFinite = true) (h : ¬ a.Clash b) :
    AreComparable a b := by
  cases a with
  | int m =>
    cases b with
    | int n =>
      refine ⟨m, n, _, _, rfl, rfl, tells_int m n, tells_int n m, ?_⟩
      rintro rfl
      rw [Int.sub_self]
      decide +kernel
    | float y =>
      obtain ⟨hfloat, hx⟩ := toFloat_of_not_tooLarge h
      exact areComparable_of_toFloat hfloat rfl hx hb nofun
  | float x =>
    cases b with
    | int n =>
      obtain ⟨hfloat, hy⟩ := toFloat_of_not_tooLarge h
      exact areComparable_of_toFloat rfl hfloat ha hy nofun
    | float y => exact areComparable_of_toFloat rfl rfl ha hb nofun

end Magnitude

/-! ## Comparisons of numbers -/

variable {a b : Number} {d : Magnitude} {j k : Int}

def Holds (op : BinaryOp) (a b : Number) : Prop :=
  Operation.apply op (.number a) (.number b) = .ok (.bool true)

/-- The comparisons of two numbers as those of two integers, with an equality of its own. -/
structure Compares (a b : Number) (j k : Int) (close : Bool) : Prop where
  lt : Holds .lt a b ↔ j < k
  gt : Holds .gt a b ↔ k < j
  le : Holds .le a b ↔ j ≤ k
  ge : Holds .ge a b ↔ k ≤ j
  eq : Holds .eq a b ↔ close = true
  ne : Holds .ne a b ↔ close = false

theorem bool_eq_true_iff {test : Bool} :
    (.ok (.bool test) : Outcome Value) = .ok (.bool true) ↔ test = true := by
  rw [Except.ok.injEq, Value.bool.injEq]

theorem compare_of_sameUnits (hunits : a.sameUnits b = true)
    (hd : a.magnitude.sub b.magnitude = .ok d) : a.compare b = .ok d := by
  rw [compare, agreeing, hunits, Bool.or_true, if_pos rfl, hd]
  rfl

theorem equals_of_sameUnits (hunits : a.sameUnits b = true)
    (hd : a.magnitude.sub b.magnitude = .ok d) :
    (Value.number a).equals (.number b) = .ok (d.abs.lt Magnitude.tolerance) := by
  rw [Value.equals, hunits, if_pos rfl, Magnitude.close_eq hd]
  rfl

theorem compares (hunits : a.sameUnits b = true) (hd : a.magnitude.sub b.magnitude = .ok d)
    (ht : d.Tells j k) : Compares a b j k (d.abs.lt Magnitude.tolerance) := by
  have hcompare := compare_of_sameUnits hunits hd
  have hordered {op : BinaryOp} (test : Magnitude → Bool)
      (hop : Operation.apply op (.number a) (.number b) =
        do return .bool (test (← a.compare b))) : Holds op a b ↔ test d = true := by
    rw [Holds, hop, hcompare]
    exact bool_eq_true_iff
  have hequals := equals_of_sameUnits hunits hd
  constructor
  · exact (hordered (fun d => d.lt 0) rfl).trans ht.lt
  · exact (hordered (fun d => Magnitude.lt 0 d) rfl).trans ht.gt
  · apply (hordered (fun d => d.lt 0 || d.eq 0) rfl).trans
    rw [Bool.or_eq_true, ht.lt, ht.eq]
    omega
  · apply (hordered (fun d => Magnitude.lt 0 d || d.eq 0) rfl).trans
    rw [Bool.or_eq_true, ht.gt, ht.eq]
    omega
  · rw [Holds, Operation.apply, hequals]
    exact bool_eq_true_iff
  · rw [Holds, Operation.apply, hequals]
    apply bool_eq_true_iff.trans
    rw [Bool.not_eq_true']

/-- Exactly one of the first three comparisons holds, and the other three are told by them. -/
structure AreOrdered (a b : Number) : Prop where
  one : Holds .lt a b ∧ ¬ Holds .eq a b ∧ ¬ Holds .gt a b ∨
    ¬ Holds .lt a b ∧ Holds .eq a b ∧ ¬ Holds .gt a b ∨
    ¬ Holds .lt a b ∧ ¬ Holds .eq a b ∧ Holds .gt a b
  le_iff : Holds .le a b ↔ Holds .lt a b ∨ Holds .eq a b
  ge_iff : Holds .ge a b ↔ Holds .le b a
  ne_iff : Holds .ne a b ↔ ¬ Holds .eq a b

theorem not_holds_of_unanswered {op : BinaryOp} (h : Operation.Unanswered op a b) :
    ¬ Holds op a b := by
  intro hholds
  have hescapes : Outcome.Escapes (Operation.apply op (.number a) (.number b)) :=
    Operation.escapes_apply_iff.mpr h
  rw [hholds] at hescapes
  exact Outcome.not_escapes_ok _ hescapes

/-- Numbers that cannot be subtracted are not even different. -/
theorem not_areOrdered_of_clash (hunits : a.sameUnits b = true)
    (h : a.magnitude.Clash b.magnitude) : ¬ AreOrdered a b := by
  have hlt : ¬ Holds .lt a b := not_holds_of_unanswered ⟨Or.inr (Or.inr hunits), h⟩
  have hgt : ¬ Holds .gt a b := not_holds_of_unanswered ⟨Or.inr (Or.inr hunits), h⟩
  have heq : ¬ Holds .eq a b := not_holds_of_unanswered ⟨hunits, h⟩
  intro hordered
  rcases hordered.one with ⟨hholds, -⟩ | ⟨-, hholds, -⟩ | ⟨-, -, hholds⟩
  · exact hlt hholds
  · exact heq hholds
  · exact hgt hholds

theorem not_areOrdered_of_isNear (hunits : a.sameUnits b = true)
    (ha : a.magnitude.isFinite = true) (hb : b.magnitude.isFinite = true)
    (h : a.magnitude.IsNear b.magnitude) : ¬ AreOrdered a b := by
  obtain ⟨d, hd, hne, hlt⟩ := h
  have hclash : ¬ a.magnitude.Clash b.magnitude := by
    intro hclash
    obtain ⟨fault, hfault⟩ := Magnitude.fails_sub_iff.mpr hclash
    rw [hd] at hfault
    cases hfault
  obtain ⟨j, k, d', e, hd', -, hdt, -, -⟩ := Magnitude.areComparable ha hb hclash
  obtain rfl : d = d' := Except.ok.inj (hd.symm.trans hd')
  have hab := compares hunits hd hdt
  have hjk : j ≠ k := by
    intro hjk
    rw [hdt.eq.mpr hjk] at hne
    cases hne
  intro hordered
  have hone := hordered.one
  rw [hab.lt, hab.gt, hab.eq] at hone
  rcases hone with ⟨-, hneq, -⟩ | ⟨hnlt, -, hngt⟩ | ⟨-, hneq, -⟩
  · exact hneq hlt
  · omega
  · exact hneq hlt

theorem areOrdered_of_compares {close : Bool} (hab : Compares a b j k (decide (j = k)))
    (hba : Compares b a k j close) : AreOrdered a b := by
  constructor
  · rw [hab.lt, hab.eq, hab.gt, decide_eq_true_iff]
    omega
  · rw [hab.le, hab.lt, hab.eq, decide_eq_true_iff]
    omega
  · rw [hab.ge, hba.le]
  · rw [hab.ne, hab.eq, decide_eq_true_iff, decide_eq_false_iff_not]

/-- Finite numbers with the same units are ordered exactly if they can be subtracted and are not so
near that they count as equal. The reversed order and the denied equality are right whenever the
numbers can be subtracted. -/
theorem areOrdered_iff (hunits : a.sameUnits b = true) (ha : a.magnitude.isFinite = true)
    (hb : b.magnitude.isFinite = true) :
    (AreOrdered a b ↔ ¬ a.magnitude.Clash b.magnitude ∧ ¬ a.magnitude.IsNear b.magnitude) ∧
      (¬ a.magnitude.Clash b.magnitude →
        (Holds .ge a b ↔ Holds .le b a) ∧ (Holds .ne a b ↔ ¬ Holds .eq a b)) := by
  by_cases hclash : a.magnitude.Clash b.magnitude
  · refine ⟨iff_of_false (not_areOrdered_of_clash hunits hclash) ?_, fun h => absurd hclash h⟩
    intro h
    exact h.1 hclash
  obtain ⟨j, k, d, e, hd, he, hdt, het, hclose⟩ := Magnitude.areComparable ha hb hclash
  have hab := compares hunits hd hdt
  have hba := compares (sameUnits_symm hunits) he het
  refine ⟨⟨fun h => ⟨hclash, fun hnear => ?_⟩, fun h => ?_⟩, fun _ => ⟨?_, ?_⟩⟩
  · exact not_areOrdered_of_isNear hunits ha hb hnear h
  · have hsize : d.abs.lt Magnitude.tolerance = decide (j = k) := by
      by_cases hjk : j = k
      · rw [hclose hjk, decide_eq_true hjk]
      · rw [decide_eq_false hjk, ← Bool.not_eq_true]
        intro hlt
        have hne : d.eq 0 = false := by rwa [← Bool.not_eq_true, hdt.eq]
        exact h.2 ⟨d, hd, hne, hlt⟩
    rw [hsize] at hab
    exact areOrdered_of_compares hab hba
  · rw [hab.ge, hba.le]
  · rw [hab.ne, hab.eq, Bool.not_eq_true]

def gap : Number := ⟨.int 1, ["px"], []⟩

def otherGap : Number := ⟨.float (.ofQuotient 1000000000001 1000000000000), ["px"], []⟩

theorem isFinite_otherGap : otherGap.magnitude.isFinite = true := by decide +kernel

theorem isNear_gap : gap.magnitude.IsNear otherGap.magnitude :=
  ⟨.float (.ofInt 1 - .ofQuotient 1000000000001 1000000000000), by decide +kernel,
    by decide +kernel, by decide +kernel⟩

/-- The gaps are both ordered with what is twice as wide, but not with each other. -/
theorem areOrdered_iff_gap :
    otherGap.sameUnits { gap with magnitude := .int 2 } = true ∧
    otherGap.magnitude.isFinite = true ∧ (Magnitude.int 2).isFinite = true ∧
    AreOrdered otherGap { gap with magnitude := .int 2 } ∧ ¬ AreOrdered gap otherGap := by
  have hunits : otherGap.sameUnits { gap with magnitude := .int 2 } = true := by decide
  refine ⟨hunits, isFinite_otherGap, rfl, ?_, ?_⟩
  · apply (areOrdered_iff hunits isFinite_otherGap rfl).1.mpr
    constructor
    · intro hclash
      have hfinite : (Binary64.ofInt 2).isFinite = true := by decide +kernel
      exact absurd (hfinite.symm.trans hclash) Bool.noConfusion
    · rintro ⟨d, hd, -, hlt⟩
      have hclose := Magnitude.close_eq hd
      rw [hlt] at hclose
      exact absurd hclose (by decide +kernel)
  · intro hordered
    exact ((areOrdered_iff (by decide) rfl isFinite_otherGap).1.mp hordered).2 isNear_gap

/-- One is less than what it is equal to. -/
theorem not_areOrdered :
    evaluateSource "1 < 1.000000000001 and 1 == 1.000000000001" [] = .ok (.bool true) ∧
      ¬ ∀ a b : Number, a.sameUnits b = true → a.magnitude.isFinite = true →
        b.magnitude.isFinite = true → AreOrdered a b := by
  constructor
  · have hsame : (evaluateSource "1 < 1.000000000001 and 1 == 1.000000000001" []).toOption.any
        (Value.same · (.bool true)) = true := by
      decide +kernel
    cases hrun : evaluateSource "1 < 1.000000000001 and 1 == 1.000000000001" [] with
    | error failure =>
      rw [hrun] at hsame
      cases hsame
    | ok v =>
      rw [hrun] at hsame
      change v.same (.bool true) = true at hsame
      cases v with
      | bool b =>
        rw [Value.same, beq_iff_eq] at hsame
        rw [hsame]
      | _ => cases hsame
  · intro h
    have hordered := h gap otherGap (by decide) rfl isFinite_otherGap
    exact not_areOrdered_of_isNear (by decide) rfl isFinite_otherGap isNear_gap hordered

end Number

end SassData
