import SassData.Value

/-!
# Structural equality

Magnitudes are the same where they stand for one thing: a count of units, an infinity, or something
that is no number and is there under a name. So values that are the same as a third one are the
same. Finite numbers that are the same are close, and nothing is close to what is not finite.
-/

namespace SassData

set_option autoImplicit false

theorem Identity.same_iff (i j : Identity) : i.same j = true ↔ i = j ∧ i ≠ .passing := by
  constructor
  · intro h
    obtain rfl := eq_of_same h
    exact ⟨rfl, (same_self_iff i).mp h⟩
  · rintro ⟨rfl, h⟩
    exact (same_self_iff i).mpr h

theorem Identity.same_of_same {i j k : Identity} (hi : i.same k = true) (hj : j.same k = true) :
    i.same j = true := by
  rw [same_iff] at hi hj ⊢
  exact ⟨hi.1.trans hj.1.symm, hi.2⟩

namespace Number

/-! ## What magnitudes stand for -/

inductive Point
  | units (n : Int)
  | infinity (negative : Bool)
  | nan (identity : Identity)

def Binary64.point : Binary64 → Point
  | .nan _ i => .nan i
  | .infinity s => .infinity s
  | .finite s u h => .units (Binary64.finite s u h).signedUnits

namespace Magnitude

def point : Magnitude → Point
  | .int n => .units (n * unitsInOne)
  | .float x => x.point

def isFinite : Magnitude → Bool
  | .int _ => true
  | .float x => x.isFinite

theorem eq_iff_of_units {m n : Int} : m * unitsInOne = n * unitsInOne ↔ m = n := by
  have hpos : (unitsInOne : Int) ≠ 0 := Int.ofNat_ne_zero.mpr (Nat.ne_of_gt (twoPow_pos 1074))
  exact ⟨Int.eq_of_mul_eq_mul_right hpos, congrArg (· * (unitsInOne : Int))⟩

theorem units_iff {m n : Int} :
    (m == n) = true ↔ Point.units m = .units n ∧ Point.units m ≠ .nan .passing := by
  rw [beq_iff_eq, Point.units.injEq]
  exact ⟨fun h => ⟨h, nofun⟩, And.left⟩

theorem same_iff (a b : Magnitude) :
    a.same b = true ↔ a.point = b.point ∧ a.point ≠ .nan .passing := by
  cases a with
  | int m =>
    cases b with
    | int n =>
      refine Iff.trans ?_ units_iff
      rw [beq_iff_eq, eq_iff_of_units]
      exact beq_iff_eq
    | float y =>
      cases y with
      | finite t v hv => exact units_iff
      | _ => exact iff_of_false nofun fun h => nomatch h.1
  | float x =>
    cases b with
    | int n =>
      cases x with
      | finite s u hu => exact units_iff
      | _ => exact iff_of_false nofun fun h => nomatch h.1
    | float y =>
      cases x <;> cases y <;>
        simp [same, point, Binary64.point, Binary64.eq, Binary64.sameNan, Identity.same_iff]

theorem same_of_same {a b c : Magnitude} (ha : a.same c = true) (hb : b.same c = true) :
    a.same b = true := by
  rw [same_iff] at ha hb ⊢
  exact ⟨ha.1.trans hb.1.symm, ha.2⟩

/-! ## What is close -/

end Magnitude

namespace Binary64

/-- An integer that some number stands for is a floating-point number without rounding. -/
theorem ofInt_eq_of_inFormat {n : Int} {u : Nat} (hu : InFormat u)
    (h : (n * (unitsInOne : Int)).natAbs = u) :
    ofInt n = .finite (decide (n * (unitsInOne : Int) < 0)) u hu := by
  have hround : roundBits (n * (unitsInOne : Int)).natAbs 1 = u := by
    rw [h, roundBits_of_fits hu.fits]
  simp only [ofInt, ofUnits, nearest, hround]
  rw [dif_pos (Nat.lt_of_not_le hu.notTooLarge)]

theorem sub_of_signedUnits {x y : Binary64} (hx : x.isFinite = true) (hy : y.isFinite = true)
    (h : x.signedUnits = y.signedUnits) : ∃ negative, x - y = zero negative := by
  cases x with
  | finite s u hu =>
    cases y with
    | finite t v hv =>
      refine ⟨s && !t, ?_⟩
      have hsum : (finite s u hu).signedUnits + (finite (!t) v hv).signedUnits = 0 := by
        rw [h]
        cases t <;> simp only [signedUnits, Bool.not_true, Bool.not_false, if_true, if_false,
          Bool.false_eq_true] <;> omega
      change add (finite s u hu) (finite (!t) v hv) = _
      simp only [add, hsum, beq_self_eq_true, if_true]
    | _ => cases hy
  | _ => cases hx

theorem isFinite_sub {x y : Binary64} (hy : y.isFinite = false) : (x - y).isFinite = false := by
  change (sub x y).isFinite = false
  cases y with
  | finite => cases hy
  | nan t j => cases x <;> rfl
  | infinity t =>
    cases x with
    | infinity s => cases s <;> cases t <;> rfl
    | _ => rfl

end Binary64

namespace Magnitude

/-- Magnitudes that stand for one count of units have floating-point numbers that do. -/
theorem toFloat_of_point {a : Magnitude} {y : Binary64} (hy : y.isFinite = true)
    (h : a.point = y.point) :
    ∃ x, a.toFloat = .ok x ∧ x.isFinite = true ∧ x.signedUnits = y.signedUnits := by
  cases y with
  | finite t v hv =>
    cases a with
    | float x =>
      cases x with
      | finite s u hu => exact ⟨_, rfl, rfl, Point.units.inj h⟩
      | _ => cases h
    | int m =>
      have hunits : m * (unitsInOne : Int) = if t then -(v : Int) else v := Point.units.inj h
      have habs : (m * (unitsInOne : Int)).natAbs = v := by
        rw [hunits]
        cases t <;> simp
      have hx := Binary64.ofInt_eq_of_inFormat hv habs
      refine ⟨Binary64.ofInt m, ?_, ?_, ?_⟩
      · rw [toFloat, hx]
        rfl
      · rw [hx]
        rfl
      · rw [hx]
        simp only [Binary64.signedUnits, hunits, decide_eq_true_eq]
        cases t <;> simp only [Bool.false_eq_true, if_true, if_false] <;> split <;> omega
  | _ => cases hy

theorem close_of_toFloat {a b : Magnitude} {x y : Binary64}
    (hs : a.sub b = .ok (.float (x - y))) (hx : x.isFinite = true) (hy : y.isFinite = true)
    (h : x.signedUnits = y.signedUnits) : a.close b = .ok true := by
  have hzero : ∀ negative,
      (Magnitude.float (Binary64.zero negative)).abs.lt tolerance = true := by
    decide +kernel
  obtain ⟨negative, hsub⟩ := Binary64.sub_of_signedUnits hx hy h
  rw [close, hs, hsub]
  exact congrArg Except.ok (hzero negative)

theorem close_of_same {a b : Magnitude} (h : a.same b = true) (hb : b.isFinite = true) :
    a.close b = .ok true := by
  have hpoint := ((same_iff a b).mp h).1
  cases b with
  | float y =>
    obtain ⟨x, hx, hfinite, hunits⟩ := toFloat_of_point hb hpoint
    refine close_of_toFloat ?_ hfinite hb hunits
    cases a <;> simp only [sub, inFloat, hx] <;> rfl
  | int n =>
    cases a with
    | int m =>
      obtain rfl := eq_iff_of_units.mp (Point.units.inj hpoint)
      have hzero : (Magnitude.int 0).abs.lt tolerance = true := by decide +kernel
      simp only [close, sub, Int.sub_self]
      exact congrArg Except.ok hzero
    | float x =>
      have hx : x.isFinite = true := by
        cases x with
        | finite => rfl
        | _ => cases hpoint
      obtain ⟨y, hy, hfinite, hunits⟩ := toFloat_of_point hx hpoint.symm
      refine close_of_toFloat ?_ hx hfinite hunits.symm
      simp only [sub, inFloat, hy]
      rfl

theorem not_lt_of_not_finite {z : Binary64} (hz : z.isFinite = false) :
    (Magnitude.float z).abs.lt tolerance = false := by
  obtain ⟨bound, hbound⟩ : ∃ bound, tolerance = .float bound := ⟨_, rfl⟩
  rw [hbound]
  cases z with
  | finite => cases hz
  | nan s i => rfl
  | infinity s => cases bound <;> rfl

theorem close_ne_of_not_finite {a b : Magnitude} (hb : b.isFinite = false) :
    a.close b ≠ .ok true := by
  cases b with
  | int n => cases hb
  | float y =>
    have hsub : a.sub (.float y) = inFloat (· - ·) a (.float y) := by cases a <;> rfl
    rw [close, hsub, inFloat]
    cases a.toFloat with
    | error fault => exact nofun
    | ok x =>
      have hfar := not_lt_of_not_finite (@Binary64.isFinite_sub x y hb)
      intro h
      exact Bool.noConfusion (hfar.symm.trans (Except.ok.inj h))

end Magnitude

end Number

/-! ## Values that are the same as a third one -/

theorem Color.same_of_same {a b c : Color} (ha : a.same c = true) (hb : b.same c = true) :
    a.same b = true := by
  simp only [Color.same, Bool.and_eq_true, beq_iff_eq] at ha hb ⊢
  obtain ⟨⟨⟨hr, hg⟩, hl⟩, halpha⟩ := ha
  obtain ⟨⟨⟨hr', hg'⟩, hl'⟩, halpha'⟩ := hb
  exact ⟨⟨⟨hr.trans hr'.symm, hg.trans hg'.symm⟩, hl.trans hl'.symm⟩,
    Number.Magnitude.same_of_same halpha halpha'⟩

namespace Value

-- Sameness as a third value rather than symmetry and transitivity: one induction, on the first.
mutual

theorem same_of_same (a b c : Value) (ha : a.same c = true) (hb : b.same c = true) :
    a.same b = true := by
  match a with
  | null =>
    cases c <;> simp only [same, Bool.false_eq_true] at ha
    cases b <;> simp only [same, Bool.false_eq_true] at hb ⊢
  | bool p =>
    cases c <;> simp only [same, Bool.false_eq_true] at ha
    cases b <;> simp only [same, Bool.false_eq_true, beq_iff_eq] at ha hb ⊢
    exact ha.trans hb.symm
  | number m =>
    cases c <;> simp only [same, Bool.false_eq_true] at ha
    cases b <;> simp only [same, Bool.false_eq_true, Bool.and_eq_true, beq_iff_eq] at ha hb ⊢
    exact ⟨⟨Number.Magnitude.same_of_same ha.1.1 hb.1.1, ha.1.2.trans hb.1.2.symm⟩,
      ha.2.trans hb.2.symm⟩
  | color p =>
    cases c <;> simp only [same, Bool.false_eq_true] at ha
    cases b <;> simp only [same, Bool.false_eq_true] at hb ⊢
    exact Color.same_of_same ha hb
  | string s =>
    cases c <;> simp only [same, Bool.false_eq_true] at ha
    cases b <;> simp only [same, Bool.false_eq_true, beq_iff_eq] at ha hb ⊢
    exact ha.trans hb.symm
  | list xs separator bracketed =>
    cases c <;> simp only [same, Bool.false_eq_true] at ha
    cases b <;> simp only [same, Bool.false_eq_true, Bool.and_eq_true, beq_iff_eq] at ha hb ⊢
    exact ⟨sameItems_of_sameItems xs _ _ ha.1 hb.1, ha.2.trans hb.2.symm⟩
  | map ps =>
    cases c <;> simp only [same, Bool.false_eq_true] at ha
    cases b <;> simp only [same, Bool.false_eq_true] at hb ⊢
    exact samePairs_of_samePairs ps _ _ ha hb
  | custom text i =>
    cases c <;> simp only [same, Bool.false_eq_true] at ha
    cases b <;> simp only [same, Bool.false_eq_true] at hb ⊢
    exact Identity.same_of_same ha hb

theorem sameItems_of_sameItems (xs ys zs : List Value) (hx : sameItems xs zs = true)
    (hy : sameItems ys zs = true) : sameItems xs ys = true := by
  match xs, ys, zs with
  | [], [], _ => rfl
  | x :: xs, y :: ys, z :: zs =>
    simp only [sameItems, Bool.and_eq_true] at hx hy ⊢
    exact ⟨same_of_same x y z hx.1 hy.1, sameItems_of_sameItems xs ys zs hx.2 hy.2⟩
  | [], _ :: _, [] => simp [sameItems] at hy
  | [], _ :: _, _ :: _ => simp [sameItems] at hx
  | _ :: _, [], [] => simp [sameItems] at hx
  | _ :: _, [], _ :: _ => simp [sameItems] at hy
  | _ :: _, _ :: _, [] => simp [sameItems] at hx

theorem samePairs_of_samePairs (ps qs rs : List (Value × Value)) (hp : samePairs ps rs = true)
    (hq : samePairs qs rs = true) : samePairs ps qs = true := by
  match ps, qs, rs with
  | [], [], _ => rfl
  | (k, v) :: ps, (l, w) :: qs, (m, u) :: rs =>
    simp only [samePairs, Bool.and_eq_true] at hp hq ⊢
    exact ⟨⟨same_of_same k l m hp.1.1 hq.1.1, same_of_same v w u hp.1.2 hq.1.2⟩,
      samePairs_of_samePairs ps qs rs hp.2 hq.2⟩
  | [], _ :: _, [] => simp [samePairs] at hq
  | [], _ :: _, _ :: _ => simp [samePairs] at hp
  | _ :: _, [], [] => simp [samePairs] at hp
  | _ :: _, [], _ :: _ => simp [samePairs] at hq
  | _ :: _, _ :: _, [] => simp [samePairs] at hp

end

end Value

end SassData
