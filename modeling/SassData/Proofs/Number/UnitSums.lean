import Mathlib.Algebra.BigOperators.Group.List.Basic
import Mathlib.Algebra.Ring.Int.Defs
import Mathlib.Data.List.Perm.Basic
import SassData.Proofs.Unit.UnitExponents

/-!
# Sums in any order

Numbers can be added up in many ways, one for each order and each placing of parentheses. A partial
sum has the units of those of its numbers that have any, so two numbers whose units differ meet in
some sum of every way, and if there are no such two, none of the sums is refused. Integers are added
exactly, and so all ways come to the same.
-/

namespace SassData

set_option autoImplicit false

namespace Number

variable {a b c l m n : Number} {ns left right : List Number} {j k : Int} {ks : List Int}

/-! ## Units that are the same up to order -/

theorem sameUnits_refl (n : Number) : n.sameUnits n = true :=
  sameUnits_iff.mpr ⟨.refl _, .refl _⟩

theorem sameUnits_symm (h : m.sameUnits n = true) : n.sameUnits m = true := by
  obtain ⟨habove, hbelow⟩ := sameUnits_iff.mp h
  exact sameUnits_iff.mpr ⟨habove.symm, hbelow.symm⟩

theorem sameUnits_trans (h : l.sameUnits m = true) (h' : m.sameUnits n = true) :
    l.sameUnits n = true := by
  obtain ⟨habove, hbelow⟩ := sameUnits_iff.mp h
  obtain ⟨habove', hbelow'⟩ := sameUnits_iff.mp h'
  exact sameUnits_iff.mpr ⟨habove.trans habove', hbelow.trans hbelow'⟩

theorem hasUnits_of_sameUnits (h : m.sameUnits n = true) (hn : n.hasUnits = true) :
    m.hasUnits = true := by
  obtain ⟨habove, hbelow⟩ := sameUnits_iff.mp h
  simp only [hasUnits, Bool.or_eq_true, Bool.not_eq_true', List.isEmpty_eq_false_iff] at hn ⊢
  exact hn.imp (fun hne he => hne (List.perm_nil.mp (he ▸ habove.symm)))
    fun hne he => hne (List.perm_nil.mp (he ▸ hbelow.symm))

/-- Two of the numbers have units, and not the same. -/
def Mix (ns : List Number) : Prop :=
  ∃ m ∈ ns, ∃ n ∈ ns, m.hasUnits = true ∧ n.hasUnits = true ∧ m.sameUnits n = false

instance (ns : List Number) : Decidable (Mix ns) :=
  inferInstanceAs (Decidable (∃ m ∈ ns, ∃ n ∈ ns,
    m.hasUnits = true ∧ n.hasUnits = true ∧ m.sameUnits n = false))

/-- The number has the units of those of the others that have any, and none if they have none. -/
structure HasUnitsOf (c : Number) (ns : List Number) : Prop where
  same : ∀ n ∈ ns, n.hasUnits = true → c.sameUnits n = true
  source : c.hasUnits = true → ∃ n ∈ ns, n.hasUnits = true

theorem hasUnitsOf_singleton (n : Number) : n.HasUnitsOf [n] where
  same m hm _ := by
    rw [List.mem_singleton.mp hm]
    exact sameUnits_refl n
  source h := ⟨n, List.mem_singleton_self n, h⟩

theorem HasUnitsOf.append (hc : c.HasUnitsOf [a, b]) (ha : a.HasUnitsOf left)
    (hb : b.HasUnitsOf right) : c.HasUnitsOf (left ++ right) := by
  constructor
  · intro n hn hunits
    rcases List.mem_append.mp hn with hn | hn
    · have han := ha.same n hn hunits
      exact sameUnits_trans (hc.same a (by simp) (hasUnits_of_sameUnits han hunits)) han
    · have hbn := hb.same n hn hunits
      exact sameUnits_trans (hc.same b (by simp) (hasUnits_of_sameUnits hbn hunits)) hbn
  · intro hunits
    obtain ⟨n, hn, hunits⟩ := hc.source hunits
    rcases List.mem_cons.mp hn with rfl | hn
    · obtain ⟨m, hm, h⟩ := ha.source hunits
      exact ⟨m, List.mem_append_left right hm, h⟩
    · rw [List.mem_singleton.mp hn] at hunits
      obtain ⟨m, hm, h⟩ := hb.source hunits
      exact ⟨m, List.mem_append_right left hm, h⟩

theorem HasUnitsOf.not_mix (h : c.HasUnitsOf ns) : ¬ Mix ns := by
  rintro ⟨m, hm, n, hn, hmu, hnu, hdiffer⟩
  have hsame := sameUnits_trans (sameUnits_symm (h.same m hm hmu)) (h.same n hn hnu)
  rw [hsame] at hdiffer
  cases hdiffer

theorem HasUnitsOf.sameUnits (ha : a.HasUnitsOf ns) (hb : b.HasUnitsOf ns) :
    a.sameUnits b = true := by
  by_cases hau : a.hasUnits = true
  · obtain ⟨n, hn, hnu⟩ := ha.source hau
    exact sameUnits_trans (ha.same n hn hnu) (sameUnits_symm (hb.same n hn hnu))
  · have hbu : ¬ b.hasUnits = true := by
      intro hbu
      obtain ⟨n, hn, hnu⟩ := hb.source hbu
      exact hau (hasUnits_of_sameUnits (ha.same n hn hnu) hnu)
    simp only [hasUnits, Bool.or_eq_true, Bool.not_eq_true', List.isEmpty_eq_false_iff, not_or,
      not_not] at hau hbu
    rw [sameUnits_iff, hau.1, hau.2, hbu.1, hbu.2]
    exact ⟨.refl _, .refl _⟩

theorem Mix.mono (h : left ⊆ right) (hmix : Mix left) : Mix right := by
  obtain ⟨m, hm, n, hn, hdiffer⟩ := hmix
  exact ⟨m, h hm, n, h hn, hdiffer⟩

theorem HasUnitsOf.perm (h : left.Perm right) (hc : c.HasUnitsOf left) : c.HasUnitsOf right := by
  constructor
  · intro n hn
    exact hc.same n (h.mem_iff.mpr hn)
  · intro hunits
    obtain ⟨n, hn, hn'⟩ := hc.source hunits
    exact ⟨n, h.mem_iff.mp hn, hn'⟩

/-- Partial sums whose units differ have them from numbers whose units differ. -/
theorem mix_of_not_agree (ha : a.HasUnitsOf left) (hb : b.HasUnitsOf right) (h : ¬ a.Agree b) :
    Mix (left ++ right) := by
  simp only [Agree, not_or, Bool.not_eq_false, Bool.not_eq_true] at h
  obtain ⟨hau, hbu, hdiffer⟩ := h
  obtain ⟨m, hm, hmu⟩ := ha.source hau
  obtain ⟨n, hn, hnu⟩ := hb.source hbu
  refine ⟨m, List.mem_append_left right hm, n, List.mem_append_right left hn, hmu, hnu, ?_⟩
  apply Bool.eq_false_iff.mpr
  intro hsame
  have ham := sameUnits_trans (ha.same m hm hmu) hsame
  rw [sameUnits_trans ham (sameUnits_symm (hb.same n hn hnu))] at hdiffer
  cases hdiffer

/-! ## One sum -/

/-- The number is an integer but for its units. -/
def AmountsTo (k : Int) (n : Number) : Prop := n.magnitude = .int k

def IsRefused (sum : Outcome Number) : Prop :=
  ∃ left right, sum = .error (.incompatibleUnits left right "+")

theorem isRefused_plus (h : ¬ a.Agree b) : IsRefused (a.plus b) := by
  rcases agreeing_cases a b "+" with ⟨hagree, -⟩ | ⟨-, left, right, hu⟩
  · exact absurd hagree h
  · refine ⟨left, right, ?_⟩
    rw [plus, additive, hu]
    rfl

theorem agreeing_hasUnitsOf {op : String} (h : a.agreeing b op = .ok c) :
    c.HasUnitsOf [a, b] := by
  unfold agreeing at h
  split at h
  · next hunits =>
    cases h
    simp only [Bool.or_eq_true, Bool.not_eq_true'] at hunits
    constructor
    · intro n hn hnu
      rcases List.mem_cons.mp hn with rfl | hn
      · exact sameUnits_refl n
      · rw [List.mem_singleton.mp hn] at hnu ⊢
        exact hunits.resolve_left (by simp [hnu])
    · intro hau
      exact ⟨a, by simp, hau⟩
  · split at h
    · next hunits =>
      cases h
      constructor
      · intro n hn hnu
        rcases List.mem_cons.mp hn with rfl | hn
        · simp [hnu] at hunits
        · rw [List.mem_singleton.mp hn]
          exact sameUnits_refl b
      · intro hbu
        exact ⟨b, by simp, hbu⟩
    · cases h

theorem exists_plus (ha : a.AmountsTo j) (hb : b.AmountsTo k) (h : a.Agree b) :
    ∃ c, a.plus b = .ok c ∧ c.AmountsTo (j + k) ∧ c.HasUnitsOf [a, b] := by
  rcases agreeing_cases a b "+" with ⟨-, units, hu⟩ | ⟨hdiffer, -⟩
  · refine ⟨{ units with magnitude := .int (j + k) }, ?_, rfl, ?_⟩
    · rw [AmountsTo] at ha hb
      rw [plus, additive, hu, ha, hb]
      rfl
    · have hunits := agreeing_hasUnitsOf hu
      exact ⟨hunits.same, hunits.source⟩
  · exact absurd h hdiffer

/-! ## Sums of many -/

/-- A way of adding numbers up. -/
inductive Grouping
  | number (n : Number)
  | plus (left right : Grouping)

namespace Grouping

def summands : Grouping → List Number
  | number n => [n]
  | plus left right => left.summands ++ right.summands

def total : Grouping → Outcome Number
  | number n => .ok n
  | plus left right => do (← left.total).plus (← right.total)

/-- By induction on the grouping: where no partial sum is refused, each has the units of its
numbers, and a sum of two of them is refused only if two numbers of theirs differ. -/
theorem total_cases (t : Grouping) (hk : List.Forall₂ AmountsTo ks t.summands) :
    Mix t.summands ∧ IsRefused t.total ∨
      ∃ c, t.total = .ok c ∧ c.AmountsTo ks.sum ∧ c.HasUnitsOf t.summands := by
  induction t generalizing ks with
  | number n =>
    obtain ⟨k, rest, hn, hrest, rfl⟩ := List.forall₂_cons_right_iff.mp hk
    rw [List.forall₂_nil_right_iff] at hrest
    subst hrest
    refine Or.inr ⟨n, rfl, ?_, hasUnitsOf_singleton n⟩
    rw [List.sum_singleton]
    exact hn
  | plus left right ihl ihr =>
    have hleft := List.forall₂_take_append ks left.summands right.summands hk
    have hright := List.forall₂_drop_append ks left.summands right.summands hk
    rw [summands, total]
    rcases ihl hleft with ⟨hmix, l, r, hrefused⟩ | ⟨a, hatotal, haint, haunits⟩
    · exact Or.inl ⟨hmix.mono (List.subset_append_left _ _), l, r, by rw [hrefused]; rfl⟩
    · rcases ihr hright with ⟨hmix, l, r, hrefused⟩ | ⟨b, hbtotal, hbint, hbunits⟩
      · exact Or.inl ⟨hmix.mono (List.subset_append_right _ _), l, r,
          by rw [hatotal, hrefused]; rfl⟩
      · have htotal : (do (← left.total).plus (← right.total)) = a.plus b := by
          rw [hatotal, hbtotal]
          rfl
        rw [htotal]
        by_cases hagree : a.Agree b
        · obtain ⟨c, hc, hcint, hcunits⟩ := exists_plus haint hbint hagree
          rw [List.sum_take_add_sum_drop] at hcint
          exact Or.inr ⟨c, hc, hcint, hcunits.append haunits hbunits⟩
        · exact Or.inl ⟨mix_of_not_agree haunits hbunits hagree, isRefused_plus hagree⟩

theorem total_cases_of_perm {t : Grouping} (hk : List.Forall₂ AmountsTo ks ns)
    (ht : t.summands.Perm ns) :
    Mix ns ∧ IsRefused t.total ∨
      ∃ c, t.total = .ok c ∧ c.AmountsTo ks.sum ∧ c.HasUnitsOf ns := by
  have hcomp : Relation.Comp (List.Forall₂ AmountsTo) List.Perm ks t.summands :=
    ⟨ns, hk, ht.symm⟩
  rw [List.forall₂_comp_perm_eq_perm_comp_forall₂] at hcomp
  obtain ⟨js, hjs, hforall⟩ := hcomp
  rw [hjs.sum_eq]
  rcases t.total_cases hforall with ⟨hmix, hrefused⟩ | ⟨c, hc, hint, hunits⟩
  · exact Or.inl ⟨hmix.mono ht.subset, hrefused⟩
  · exact Or.inr ⟨c, hc, hint, hunits.perm ht⟩

/-- Any two ways of adding up the same numbers are both refused, if two of the numbers differ in
their units, and otherwise both come to the sum of the integers with the units of those numbers that
have any. -/
theorem total_of_perm {s t : Grouping} (hk : List.Forall₂ AmountsTo ks ns)
    (hs : s.summands.Perm ns) (ht : t.summands.Perm ns) :
    Mix ns ∧ IsRefused s.total ∧ IsRefused t.total ∨
      ¬ Mix ns ∧ ∃ a b, s.total = .ok a ∧ t.total = .ok b ∧ a.AmountsTo ks.sum ∧
        b.AmountsTo ks.sum ∧ a.HasUnitsOf ns ∧ b.HasUnitsOf ns ∧ a.sameUnits b = true := by
  rcases total_cases_of_perm hk hs with ⟨hmix, hsrefused⟩ | ⟨a, ha, haint, haunits⟩
  · rcases total_cases_of_perm hk ht with ⟨-, htrefused⟩ | ⟨b, -, -, hbunits⟩
    · exact Or.inl ⟨hmix, hsrefused, htrefused⟩
    · exact absurd hmix hbunits.not_mix
  · rcases total_cases_of_perm hk ht with ⟨hmix, -⟩ | ⟨b, hb, hbint, hbunits⟩
    · exact absurd hmix haunits.not_mix
    · exact Or.inr ⟨haunits.not_mix, a, b, ha, hb, haint, hbint, haunits, hbunits,
        haunits.sameUnits hbunits⟩

def speed : Number := ⟨.int 1, ["px"], ["s", "ms"]⟩

def otherSpeed : Number := ⟨.int 3, ["px"], ["ms", "s"]⟩

theorem total_of_perm_speed :
    List.Forall₂ AmountsTo [1, 2, 3] [speed, .ofInt 2, otherSpeed] ∧
      (plus (plus (number speed) (number (.ofInt 2))) (number otherSpeed)).summands.Perm
        [speed, .ofInt 2, otherSpeed] ∧
      (plus (number (.ofInt 2)) (plus (number otherSpeed) (number speed))).summands.Perm
        [speed, .ofInt 2, otherSpeed] ∧
      ¬ Mix [speed, .ofInt 2, otherSpeed] ∧
      ∃ a b, (plus (plus (number speed) (number (.ofInt 2))) (number otherSpeed)).total = .ok a ∧
        (plus (number (.ofInt 2)) (plus (number otherSpeed) (number speed))).total = .ok b ∧
        a.AmountsTo 6 ∧ b.AmountsTo 6 ∧ a.HasUnitsOf [speed, .ofInt 2, otherSpeed] ∧
        b.HasUnitsOf [speed, .ofInt 2, otherSpeed] ∧ a.sameUnits b = true := by
  have hk : List.Forall₂ AmountsTo [1, 2, 3] [speed, .ofInt 2, otherSpeed] :=
    .cons rfl (.cons rfl (.cons rfl .nil))
  have hs : (plus (plus (number speed) (number (.ofInt 2))) (number otherSpeed)).summands.Perm
      [speed, .ofInt 2, otherSpeed] := .refl _
  have ht : (plus (number (.ofInt 2)) (plus (number otherSpeed) (number speed))).summands.Perm
      [speed, .ofInt 2, otherSpeed] := by decide
  rcases total_of_perm hk hs ht with ⟨hmix, -⟩ | h
  · exact absurd hmix (by decide)
  · exact ⟨hk, hs, ht, h⟩

end Grouping

end Number

end SassData
