import SassData.Proofs.Number.FailingOperations
import SassData.Proofs.Session.SessionSteps

/-!
# Failures that are no failures of style sheets

What a compilation can fail with that is no failure of style sheets. Calls are never the cause: what
a function fails with is wrapped. Operators and the comparison of map keys are, where two numbers
have no result. The run of a style sheet gets stuck where it comes to such an operation, and it is
orderly if it comes to none.
-/

namespace SassData

set_option autoImplicit false

open Number (Magnitude Fails)

/-- An outcome that is a failure, but none of style sheets. -/
def Outcome.Escapes {α : Type} (x : Outcome α) : Prop :=
  ∃ failure, x = .error failure ∧ failure.isCompileError = false

namespace Outcome

variable {α β : Type}

theorem not_escapes_ok (a : α) : ¬ Escapes (.ok a) := by
  rintro ⟨failure, h, -⟩
  cases h

theorem escapes_error_iff {failure : Failure} :
    Escapes (.error failure : Outcome α) ↔ failure.isCompileError = false := by
  constructor
  · rintro ⟨other, h, hf⟩
    cases h
    exact hf
  · intro h
    exact ⟨failure, rfl, h⟩

instance (x : Outcome α) : Decidable x.Escapes :=
  match x with
  | .error failure => decidable_of_iff (failure.isCompileError = false) escapes_error_iff.symm
  | .ok a => .isFalse (not_escapes_ok a)

theorem escapes_bind_iff {x : Outcome α} {f : α → Outcome β} :
    Escapes (x >>= f) ↔ x.Escapes ∨ ∃ a, x = .ok a ∧ (f a).Escapes := by
  cases x with
  | error failure =>
    constructor
    · intro h
      exact Or.inl (escapes_error_iff.mpr (escapes_error_iff.mp h))
    · rintro (h | ⟨a, h, -⟩)
      · exact escapes_error_iff.mpr (escapes_error_iff.mp h)
      · cases h
  | ok a =>
    constructor
    · intro h
      exact Or.inr ⟨a, rfl, h⟩
    · rintro (h | ⟨a', h, hf⟩)
      · exact absurd h (not_escapes_ok a)
      · cases h
        exact hf

/-- What goes on without escaping escapes only where it begins. -/
theorem escapes_bind_of_not {x : Outcome α} {f : α → Outcome β} (hf : ∀ a, ¬ Escapes (f a)) :
    Escapes (x >>= f) ↔ x.Escapes := by
  rw [escapes_bind_iff]
  simp only [hf, and_false, exists_false, or_false]

theorem escapes_map_iff {x : Outcome α} {f : α → β} : Escapes (f <$> x) ↔ x.Escapes := by
  cases x with
  | error failure => exact escapes_error_iff.trans escapes_error_iff.symm
  | ok a => exact iff_of_false (not_escapes_ok (f a)) (not_escapes_ok a)

theorem escapes_ofArithmetic_iff {x : Except Number.ArithmeticFault α} :
    Escapes (ofArithmetic x) ↔ Fails x := by
  cases x with
  | error fault => exact iff_of_true ⟨.arithmetic fault, rfl, rfl⟩ ⟨fault, rfl⟩
  | ok a => exact iff_of_false (not_escapes_ok a) (Number.not_fails_ok a)

end Outcome

open Outcome (not_escapes_ok escapes_error_iff escapes_bind_iff escapes_bind_of_not
  escapes_map_iff escapes_ofArithmetic_iff)

/-! ## Operations -/

namespace Number

def Agree (a b : Number) : Prop := a.hasUnits = false ∨ b.hasUnits = false ∨ a.sameUnits b = true

theorem agreeing_cases (a b : Number) (op : String) :
    a.Agree b ∧ (∃ units, a.agreeing b op = .ok units) ∨
      ¬ a.Agree b ∧ ∃ left right, a.agreeing b op = .error (.incompatibleUnits left right op) := by
  unfold agreeing Agree
  cases ha : a.hasUnits <;> cases hb : b.hasUnits <;> cases hs : a.sameUnits b <;> simp

theorem escapes_additive_iff {op : String}
    {f : Magnitude → Magnitude → Except ArithmeticFault Magnitude} {a b : Number} :
    Outcome.Escapes (additive op f a b) ↔ a.Agree b ∧ Fails (f a.magnitude b.magnitude) := by
  rw [additive, escapes_bind_iff]
  rcases agreeing_cases a b op with ⟨ha, units, hu⟩ | ⟨ha, left, right, hu⟩
  · rw [hu]
    have hbuild (m : Magnitude) :
        ¬ Outcome.Escapes (.ok { units with magnitude := m } : Outcome Number) := not_escapes_ok _
    simp only [not_escapes_ok, false_or, Except.ok.injEq, exists_eq_left', ha, true_and]
    exact (escapes_bind_of_not hbuild).trans escapes_ofArithmetic_iff
  · rw [hu]
    simp [ha, escapes_error_iff, Failure.isCompileError]

theorem escapes_compare_iff {a b : Number} :
    Outcome.Escapes (a.compare b) ↔ a.Agree b ∧ a.magnitude.Clash b.magnitude := by
  rw [compare, escapes_bind_iff]
  rcases agreeing_cases a b "<" with ⟨ha, units, hu⟩ | ⟨ha, left, right, hu⟩
  · rw [hu]
    simp [not_escapes_ok, ha, escapes_ofArithmetic_iff, Magnitude.fails_sub_iff]
  · rw [hu]
    simp [ha, escapes_error_iff, Failure.isCompileError]

end Number

namespace Operation

/-- Two numbers for which an operator has no result: for sums, differences, remainders and
comparisons with an order the units agree, and equality looks at magnitudes only in the same
units. -/
def Unanswered (op : BinaryOp) (a b : Number) : Prop :=
  match op with
  | .or | .and => False
  | .eq | .ne => a.sameUnits b = true ∧ a.magnitude.Clash b.magnitude
  | .lt | .le | .gt | .ge | .add | .sub => a.Agree b ∧ a.magnitude.Clash b.magnitude
  | .mul => a.magnitude.Clash b.magnitude
  | .div =>
    b.magnitude.isZero = true ∧ a.magnitude.IsBeyond ∧ a.magnitude.isZero = false ∨
      b.magnitude.isZero = false ∧
        (a.magnitude.Clash b.magnitude ∨ a.magnitude.HasLargeQuotient b.magnitude)
  | .mod =>
    a.Agree b ∧ b.magnitude.isZero = false ∧
      (a.magnitude.IsBeyond ∨ b.magnitude.IsBeyond ∨
        a.magnitude.IsInfinite ∧ ¬ b.magnitude.IsNan)

def UnansweredValues (op : BinaryOp) : Value → Value → Prop
  | .number a, .number b => Unanswered op a b
  | _, _ => False

theorem escapes_times_iff {a b : Number} :
    Outcome.Escapes (a.times b) ↔ a.magnitude.Clash b.magnitude := by
  have hstart : Outcome.Escapes (a.times b) ↔
      Outcome.Escapes (Outcome.ofArithmetic (a.magnitude.mul b.magnitude)) :=
    escapes_bind_of_not fun _ => not_escapes_ok _
  rw [hstart, escapes_ofArithmetic_iff, Magnitude.fails_mul_iff]

theorem escapes_dividedBy_iff {a b : Number} :
    Outcome.Escapes (a.dividedBy b) ↔ Fails (a.magnitude.div b.magnitude) := by
  have hstart : Outcome.Escapes (a.dividedBy b) ↔
      Outcome.Escapes (Outcome.ofArithmetic (a.magnitude.div b.magnitude)) :=
    escapes_bind_of_not fun _ => not_escapes_ok _
  rw [hstart, escapes_ofArithmetic_iff]

theorem escapes_equals_iff {a b : Number} :
    Outcome.Escapes ((Value.number a).equals (.number b)) ↔
      a.sameUnits b = true ∧ a.magnitude.Clash b.magnitude := by
  rw [Value.equals]
  cases a.sameUnits b with
  | false => simp [not_escapes_ok]
  | true =>
    simp only [if_true, true_and, escapes_ofArithmetic_iff, Magnitude.close, Number.fails_bind_iff,
      Magnitude.fails_sub_iff]
    constructor
    · rintro (h | ⟨d, -, h⟩)
      · exact h
      · exact absurd h (Number.not_fails_ok _)
    · exact Or.inl

theorem not_escapes_equals {a b : Value} (h : ∀ m n, a = .number m → b ≠ .number n) :
    ¬ Outcome.Escapes (a.equals b) := by
  unfold Value.equals
  split
  · exact not_escapes_ok _
  · exact absurd rfl (h _ _ rfl)
  · exact not_escapes_ok _

theorem not_escapes_onTexts (op : BinaryOp) (a b : Value) :
    ¬ Outcome.Escapes (onTexts op a b) := by
  unfold onTexts
  split
  · exact not_escapes_ok _
  · exact not_escapes_ok _
  · exact not_escapes_ok _
  · exact not_escapes_ok _
  · simp [escapes_error_iff, Failure.isCompileError]

theorem escapes_onNumbers_iff {op : BinaryOp} {a b : Number} (he : op ≠ .eq) (hn : op ≠ .ne) :
    Outcome.Escapes (onNumbers op a b) ↔ Unanswered op a b := by
  have hcompare {test : Magnitude → Bool} :
      Outcome.Escapes (do return Value.bool (test (← a.compare b)) : Outcome Value) ↔
        a.Agree b ∧ a.magnitude.Clash b.magnitude :=
    (escapes_bind_of_not fun _ => not_escapes_ok _).trans Number.escapes_compare_iff
  cases op with
  | or | and => simp [onNumbers, Unanswered, escapes_error_iff, Failure.isCompileError]
  | eq => exact absurd rfl he
  | ne => exact absurd rfl hn
  | lt | le | gt | ge => exact hcompare
  | add =>
    exact escapes_map_iff.trans (Number.escapes_additive_iff.trans
      (and_congr_right fun _ => Magnitude.fails_add_iff))
  | sub =>
    exact escapes_map_iff.trans (Number.escapes_additive_iff.trans
      (and_congr_right fun _ => Magnitude.fails_sub_iff))
  | mul => exact escapes_map_iff.trans escapes_times_iff
  | div => exact escapes_map_iff.trans (escapes_dividedBy_iff.trans Magnitude.fails_div_iff)
  | mod =>
    exact escapes_map_iff.trans (Number.escapes_additive_iff.trans
      (and_congr_right fun _ => Magnitude.fails_mod_iff))

theorem escapes_ne_iff {a b : Value} :
    Outcome.Escapes (apply .ne a b) ↔ Outcome.Escapes (a.equals b) :=
  escapes_bind_of_not fun _ => not_escapes_ok _

theorem apply_numbers {op : BinaryOp} {a b : Number} (he : op ≠ .eq) (hn : op ≠ .ne) :
    apply op (.number a) (.number b) = onNumbers op a b := by
  unfold apply
  split
  · exact absurd rfl he
  · exact absurd rfl hn
  · next _ _ ha hb =>
    cases ha
    cases hb
    rfl
  · next _ h => exact absurd rfl (h a b rfl)

theorem escapes_apply_iff {op : BinaryOp} {a b : Value} :
    Outcome.Escapes (apply op a b) ↔ UnansweredValues op a b := by
  by_cases hnumbers : ∃ m n, a = .number m ∧ b = .number n
  · obtain ⟨m, n, rfl, rfl⟩ := hnumbers
    by_cases he : op = .eq
    · rw [he]
      exact escapes_map_iff.trans escapes_equals_iff
    · by_cases hn : op = .ne
      · rw [hn]
        exact escapes_ne_iff.trans escapes_equals_iff
      · rw [apply_numbers he hn]
        exact escapes_onNumbers_iff he hn
  · have hn : ∀ m n, a = .number m → b ≠ .number n := fun m n ha hb => hnumbers ⟨m, n, ha, hb⟩
    have hvalues : ¬ UnansweredValues op a b := by
      intro h
      unfold UnansweredValues at h
      split at h
      · exact hn _ _ rfl rfl
      · exact h
    refine iff_of_false ?_ hvalues
    unfold apply
    split
    · exact mt escapes_map_iff.mp (not_escapes_equals hn)
    · exact mt escapes_ne_iff.mp (not_escapes_equals hn)
    · exact absurd rfl (hn _ _ rfl)
    · exact not_escapes_onTexts _ _ _

end Operation

/-! ## Computations that note their calls -/

def Traced.Escapes {α : Type} (m : Traced α) (trace : List Invocation) : Prop :=
  Outcome.Escapes (m trace)

namespace Traced

variable {α β : Type} {trace : List Invocation}

theorem not_escapes_pure (a : α) : ¬ Escapes (pure a) trace := not_escapes_ok _

theorem escapes_lift_iff {x : Outcome α} :
    Escapes (liftM x : Traced α) trace ↔ x.Escapes := by
  cases x with
  | error failure => exact escapes_error_iff.trans escapes_error_iff.symm
  | ok a => exact iff_of_false (not_escapes_ok _) (not_escapes_ok a)

theorem escapes_bind_iff {m : Traced α} {k : α → Traced β} :
    Escapes (m >>= k) trace ↔
      Escapes m trace ∨ ∃ a after, m trace = .ok (a, after) ∧ Escapes (k a) after := by
  rw [Escapes, Traced.bind_apply, Outcome.escapes_bind_iff]
  constructor
  · rintro (h | ⟨⟨a, after⟩, h, hk⟩)
    · exact Or.inl h
    · exact Or.inr ⟨a, after, h, hk⟩
  · rintro (h | ⟨a, after, h, hk⟩)
    · exact Or.inl h
    · exact Or.inr ⟨(a, after), h, hk⟩

theorem escapes_bind_pure_iff {m : Traced α} {f : α → β} :
    Escapes (do return f (← m)) trace ↔ Escapes m trace :=
  Outcome.escapes_bind_of_not fun _ => not_escapes_ok _

end Traced

/-! ## Calls -/

namespace Signature

theorem isCompileError_of_bindFrom {function : String} {parameters : List Parameter}
    {positional : List Value} {keywords : Named Value} {slots : List (Option Value)}
    {rest : List Value} {failure : Failure}
    (h : bindFrom function parameters positional keywords slots rest = .error failure) :
    failure.isCompileError = true := by
  fun_induction bindFrom function parameters positional keywords slots rest with
  | case1 => cases h
  | case2 =>
    cases h
    rfl
  | case3 =>
    cases h
    rfl
  | case4 p parameters positional keywords slots rest hr ih => exact ih h
  | case5 =>
    cases h
    rfl
  | case6 _ _ _ _ _ _ _ _ _ ih => exact ih h
  | case7 _ _ _ _ _ _ _ _ ih => exact ih h
  | case8 _ _ _ _ _ _ _ _ ih => exact ih h
  | case9 =>
    cases h
    rfl

end Signature

namespace Evaluation

/-- What a function fails with is wrapped, so a call that is made fails as style sheets do. -/
theorem not_escapes_invoke (f : Function) (arguments : List Value) (trace : List Invocation) :
    ¬ Traced.Escapes (invoke f arguments) trace := by
  rw [Traced.Escapes, invoke_apply]
  split
  · exact not_escapes_ok _
  · rw [escapes_error_iff]
    exact Bool.noConfusion
  · next failure _ =>
    rw [escapes_error_iff]
    cases hf : failure.isCompileError
    · exact Bool.noConfusion
    · simp [hf]

theorem not_escapes_fillSlots {default : Expr → Traced Value} {parameters : List Parameter}
    (h : ∀ p ∈ parameters, ∀ e, p.default = some e → ∀ trace, ¬ Traced.Escapes (default e) trace)
    (slots : List (Option Value)) (trace : List Invocation) :
    ¬ Traced.Escapes (fillSlots default slots parameters) trace := by
  induction parameters generalizing slots trace with
  | nil => rcases slots with _ | ⟨_ | v, slots⟩ <;> exact not_escapes_ok _
  | cons p parameters ih =>
    have hrest (v : Value) (slots : List (Option Value)) (trace : List Invocation) :
        ¬ Traced.Escapes (do return v :: (← fillSlots default slots parameters)) trace := by
      rw [Traced.escapes_bind_pure_iff]
      exact ih (fun q hq => h q (List.mem_cons_of_mem p hq)) slots trace
    rcases slots with _ | ⟨_ | v, slots⟩
    · exact not_escapes_ok _
    · simp only [fillSlots]
      cases hd : p.default with
      | none =>
        rw [Traced.escapes_bind_iff]
        rintro (he | ⟨v, after, hv, -⟩)
        · exact Bool.noConfusion (escapes_error_iff.mp he)
        · cases hv
      | some e =>
        rw [Traced.escapes_bind_iff]
        rintro (he | ⟨v, after, -, he⟩)
        · exact h p List.mem_cons_self e hd trace he
        · exact hrest v slots after he
    · exact hrest v slots trace

theorem not_escapes_call {scope : Scope} {default : Expr → Traced Value}
    (h : ∀ name f, scope.functions.find? name = some f → ∀ p ∈ f.signature.parameters,
      ∀ e, p.default = some e → ∀ trace, ¬ Traced.Escapes (default e) trace)
    (name : String) (positional : List Value) (keywords : Named Value)
    (trace : List Invocation) :
    ¬ Traced.Escapes (call scope default name positional keywords) trace := by
  unfold call
  cases hf : scope.functions.find? name with
  | none =>
    dsimp only
    split
    · exact not_escapes_ok _
    · exact fun he => Bool.noConfusion (escapes_error_iff.mp he)
  | some f =>
    simp only [Traced.escapes_bind_iff, Traced.escapes_lift_iff]
    rintro (⟨failure, hb, he⟩ | ⟨binding, after, -, he | ⟨values, after, -, he⟩⟩)
    · rw [Signature.isCompileError_of_bindFrom hb] at he
      cases he
    · exact not_escapes_fillSlots
        (fun p hp => h name f hf p (List.mem_filter.mp hp).1) _ _ he
    · exact not_escapes_invoke _ _ _ he

end Evaluation

end SassData
