import Mathlib.Algebra.Group.Int.Defs
import Mathlib.Algebra.Group.Pi.Basic
import SassData.Proofs.Evaluation.ForeignFailures

/-!
# Units of products and quotients

A unit has an exponent in a number: how often it stands above the line less how often below.
Cancelling takes a unit away on both sides at once and so leaves all exponents as they were. A
product adds the exponents of its factors and a quotient subtracts them, in whatever order the units
are written, and a number without a unit on both sides is known by its exponents up to that order.
-/

namespace SassData

set_option autoImplicit false

/-- Each step of cancelling takes one from both counts of a token or from neither. -/
theorem Unit.count_cancel (above below : List String) (token : String) :
    ((cancel above below).1.count token : Int) - (cancel above below).2.count token =
      (above.count token : Int) - below.count token := by
  induction above generalizing below with
  | nil => rfl
  | cons unit rest ih =>
    unfold cancel
    split
    · next hmem =>
      rw [ih, List.count_erase, List.count_cons]
      have hpos := List.count_pos_iff.mpr hmem
      by_cases heq : unit = token
      · subst heq
        simp only [beq_self_eq_true, if_true]
        omega
      · simp [heq]
    · have hrest := ih below
      simp only [List.count_cons]
      omega

namespace Number

/-- How often each unit stands above the line less how often it stands below. -/
def exponent (n : Number) (token : String) : Int :=
  (n.above.count token : Int) - n.below.count token

def IsApart (n : Number) : Prop := ∀ token ∈ n.above, token ∉ n.below

instance (n : Number) : Decidable n.IsApart :=
  inferInstanceAs (Decidable (∀ token ∈ n.above, token ∉ n.below))

variable {a b c m n : Number}

/-! ## Units up to order -/

theorem sameUnits_iff : m.sameUnits n = true ↔ m.above.Perm n.above ∧ m.below.Perm n.below := by
  simp only [sameUnits, Unit.sameTokens, Bool.and_eq_true, List.isPerm_iff]

theorem IsApart.count_above (h : n.IsApart) (token : String) :
    n.above.count token = (n.exponent token).toNat := by
  unfold exponent
  by_cases hmem : token ∈ n.above
  · have hbelow := List.count_eq_zero_of_not_mem (h token hmem)
    omega
  · have habove := List.count_eq_zero_of_not_mem hmem
    omega

theorem IsApart.count_below (h : n.IsApart) (token : String) :
    n.below.count token = (-n.exponent token).toNat := by
  have habove := h.count_above token
  unfold exponent at habove ⊢
  omega

theorem sameUnits_of_exponent (hm : m.IsApart) (hn : n.IsApart) (h : m.exponent = n.exponent) :
    m.sameUnits n = true := by
  have habove : m.above.Perm n.above := by
    apply List.perm_iff_count.mpr
    intro token
    rw [hm.count_above, hn.count_above, h]
  have hbelow : m.below.Perm n.below := by
    apply List.perm_iff_count.mpr
    intro token
    rw [hm.count_below, hn.count_below, h]
  exact sameUnits_iff.mpr ⟨habove, hbelow⟩

/-! ## Products and quotients -/

theorem exponent_cancel (magnitude : Magnitude) (above below : List String) :
    exponent ⟨magnitude, (Unit.cancel above below).1, (Unit.cancel above below).2⟩ =
      exponent ⟨magnitude, above, below⟩ :=
  funext (Unit.count_cancel above below)

theorem isApart_of_times (h : a.times b = .ok c) : c.IsApart := by
  obtain ⟨magnitude, -, hc⟩ := Outcome.bind_eq_ok_iff.mp h
  cases hc
  exact Unit.cancel_disjoint _ _

theorem exponent_of_times (h : a.times b = .ok c) : c.exponent = a.exponent + b.exponent := by
  obtain ⟨magnitude, -, hc⟩ := Outcome.bind_eq_ok_iff.mp h
  cases hc
  rw [exponent_cancel]
  funext token
  simp only [exponent, Pi.add_apply, List.count_append]
  omega

theorem isApart_of_dividedBy (h : a.dividedBy b = .ok c) : c.IsApart := by
  obtain ⟨magnitude, -, hc⟩ := Outcome.bind_eq_ok_iff.mp h
  cases hc
  exact Unit.cancel_disjoint _ _

theorem exponent_of_dividedBy (h : a.dividedBy b = .ok c) :
    c.exponent = a.exponent - b.exponent := by
  obtain ⟨magnitude, -, hc⟩ := Outcome.bind_eq_ok_iff.mp h
  cases hc
  rw [exponent_cancel]
  funext token
  simp only [exponent, Pi.sub_apply, List.count_append]
  omega

theorem Magnitude.clash_comm {a b : Magnitude} : a.Clash b ↔ b.Clash a := by
  rcases a with m | x <;> rcases b with n | y <;> rfl

theorem exists_times_comm (h : a.times b = .ok c) : ∃ d, b.times a = .ok d := by
  obtain ⟨magnitude, hmul, -⟩ := Outcome.bind_eq_ok_iff.mp h
  have hclash : ¬ b.magnitude.Clash a.magnitude := by
    intro hclash
    have hfails := Magnitude.fails_mul_iff.mpr (Magnitude.clash_comm.mp hclash)
    obtain ⟨fault, hfault⟩ := hfails
    rw [hfault] at hmul
    cases hmul
  cases hd : b.magnitude.mul a.magnitude with
  | error fault => exact absurd (Magnitude.fails_mul_iff.mp ⟨fault, hd⟩) hclash
  | ok product =>
    refine ⟨_, Outcome.bind_eq_ok_iff.mpr ⟨product, ?_, rfl⟩⟩
    rw [hd]
    rfl

/-- Products add the exponents of every unit and quotients subtract them, and neither leaves a unit
on both sides. So up to the order of units products can be swapped and regrouped, and a quotient
takes back what a product has done. -/
theorem exponent_of_times_dividedBy (a b c : Number) :
    (∀ p, a.times b = .ok p →
        (∀ token, p.exponent token = a.exponent token + b.exponent token) ∧ p.IsApart) ∧
      (∀ q, a.dividedBy b = .ok q →
        (∀ token, q.exponent token = a.exponent token - b.exponent token) ∧ q.IsApart) ∧
      (∀ p, a.times b = .ok p → ∃ p', b.times a = .ok p' ∧ p.sameUnits p' = true) ∧
      (∀ p p', (a.times b >>= fun ab => ab.times c) = .ok p →
        (b.times c >>= fun bc => a.times bc) = .ok p' → p.sameUnits p' = true) ∧
      (a.IsApart → ∀ p, (a.times b >>= fun ab => ab.dividedBy b) = .ok p →
        p.sameUnits a = true) ∧
      (a.IsApart → ∀ p, (a.dividedBy b >>= fun ab => ab.times b) = .ok p →
        p.sameUnits a = true) := by
  refine ⟨?_, ?_, ?_, ?_, ?_, ?_⟩
  · intro p hp
    exact ⟨congrFun (exponent_of_times hp), isApart_of_times hp⟩
  · intro q hq
    exact ⟨congrFun (exponent_of_dividedBy hq), isApart_of_dividedBy hq⟩
  · intro p hp
    obtain ⟨p', hp'⟩ := exists_times_comm hp
    refine ⟨p', hp', sameUnits_of_exponent (isApart_of_times hp) (isApart_of_times hp') ?_⟩
    rw [exponent_of_times hp, exponent_of_times hp', add_comm]
  · intro p p' hp hp'
    obtain ⟨ab, hab, hp⟩ := Outcome.bind_eq_ok_iff.mp hp
    obtain ⟨bc, hbc, hp'⟩ := Outcome.bind_eq_ok_iff.mp hp'
    apply sameUnits_of_exponent (isApart_of_times hp) (isApart_of_times hp')
    rw [exponent_of_times hp, exponent_of_times hp', exponent_of_times hab,
      exponent_of_times hbc, add_assoc]
  · intro ha p hp
    obtain ⟨ab, hab, hp⟩ := Outcome.bind_eq_ok_iff.mp hp
    apply sameUnits_of_exponent (isApart_of_dividedBy hp) ha
    rw [exponent_of_dividedBy hp, exponent_of_times hab, add_sub_cancel_right]
  · intro ha p hp
    obtain ⟨ab, hab, hp⟩ := Outcome.bind_eq_ok_iff.mp hp
    apply sameUnits_of_exponent (isApart_of_times hp) ha
    rw [exponent_of_times hp, exponent_of_dividedBy hab, sub_add_cancel]

def flow : Number := ⟨.int 6, ["px", "em", "px"], ["s"]⟩

def pace : Number := ⟨.int 2, ["s", "s"], ["px", "s"]⟩

theorem exponent_of_times_dividedBy_pace :
    flow.IsApart ∧ flow.times pace = .ok ⟨.int 12, ["em", "px"], []⟩ ∧
      (exponent ⟨.int 12, ["em", "px"], []⟩ "px" = flow.exponent "px" + pace.exponent "px" ∧
        IsApart ⟨.int 12, ["em", "px"], []⟩) ∧
      (∃ q, flow.dividedBy pace = .ok q ∧
        (q.above == ["px", "em", "px", "px"] && q.below == ["s", "s"]) = true ∧
        q.exponent "px" = flow.exponent "px" - pace.exponent "px" ∧ q.IsApart) ∧
      (∃ p', pace.times flow = .ok p' ∧ sameUnits ⟨.int 12, ["em", "px"], []⟩ p' = true) ∧
      (flow.times pace >>= fun ab => ab.times pace) = .ok ⟨.int 24, ["em", "s"], []⟩ ∧
      (pace.times pace >>= fun bc => flow.times bc) = .ok ⟨.int 24, ["em", "s"], []⟩ ∧
      sameUnits ⟨.int 24, ["em", "s"], []⟩ ⟨.int 24, ["em", "s"], []⟩ = true ∧
      (∃ p, (flow.times pace >>= fun ab => ab.dividedBy pace) = .ok p ∧
        (p.above == ["em", "px", "px"]) = true ∧ p.sameUnits flow = true) ∧
      ∃ p, (flow.dividedBy pace >>= fun ab => ab.times pace) = .ok p ∧
        (p.above == ["em", "px", "px"]) = true ∧ p.sameUnits flow = true := by
  have hapart : flow.IsApart := by decide
  have htimes : flow.times pace = .ok ⟨.int 12, ["em", "px"], []⟩ := rfl
  have hleft : (flow.times pace >>= fun ab => ab.times pace) = .ok ⟨.int 24, ["em", "s"], []⟩ := rfl
  have hright : (pace.times pace >>= fun bc => flow.times bc) = .ok ⟨.int 24, ["em", "s"], []⟩ :=
    rfl
  obtain ⟨q, hq, hunits⟩ : ∃ q, flow.dividedBy pace = .ok q ∧
      (q.above == ["px", "em", "px", "px"] && q.below == ["s", "s"]) = true := by decide +kernel
  obtain ⟨r, hr, hrabove⟩ : ∃ p, (flow.times pace >>= fun ab => ab.dividedBy pace) = .ok p ∧
      (p.above == ["em", "px", "px"]) = true := by decide +kernel
  obtain ⟨t, ht, htabove⟩ : ∃ p, (flow.dividedBy pace >>= fun ab => ab.times pace) = .ok p ∧
      (p.above == ["em", "px", "px"]) = true := by decide +kernel
  obtain ⟨hproduct, hquotient, hcomm, hassoc, hback, hforth⟩ :=
    exponent_of_times_dividedBy flow pace pace
  exact ⟨hapart, htimes, ⟨(hproduct _ htimes).1 "px", (hproduct _ htimes).2⟩,
    ⟨q, hq, hunits, (hquotient q hq).1 "px", (hquotient q hq).2⟩, hcomm _ htimes, hleft, hright,
    hassoc _ _ hleft hright, ⟨r, hr, hrabove, hback hapart r hr⟩,
    ⟨t, ht, htabove, hforth hapart t ht⟩⟩

end Number

end SassData
