import SassData.Proofs.Evaluation.ForeignFailures
import SassData.Proofs.Evaluation.FunctionRegistries
import SassData.Proofs.Evaluation.NamedValues

/-!
# Evaluations that find their variables

An evaluation is the only place where a variable can be missing: operators and built-in functions
fail for other causes. So an expression all of whose variables are set does not fail for want of
one, whichever of its parts are evaluated.
-/

namespace SassData

set_option autoImplicit false

/-! ## Expressions and their variables -/

namespace Expr

mutual

def variableNames : Expr → List String
  | .literal _ => []
  | .variable name => [name]
  | .binary _ left right => left.variableNames ++ right.variableNames
  | .unary _ operand => operand.variableNames
  | .list items _ _ => itemVariables items
  | .map pairs => pairVariables pairs
  | .call _ arguments keywords none => itemVariables arguments ++ keywordVariables keywords
  | .call _ arguments keywords (some rest) =>
    itemVariables arguments ++ keywordVariables keywords ++ rest.variableNames

def itemVariables : List Expr → List String
  | [] => []
  | e :: rest => e.variableNames ++ itemVariables rest

def pairVariables : List (Expr × Expr) → List String
  | [] => []
  | (key, value) :: rest => key.variableNames ++ value.variableNames ++ pairVariables rest

def keywordVariables : List (String × Expr) → List String
  | [] => []
  | (_, e) :: rest => e.variableNames ++ keywordVariables rest

end

variable {P : String → Prop}

theorem forall_mem_itemVariables {es : List Expr} :
    (∀ name ∈ itemVariables es, P name) ↔ ∀ e ∈ es, ∀ name ∈ e.variableNames, P name := by
  induction es with
  | nil => simp [itemVariables]
  | cons e rest ih => rw [itemVariables, List.forall_mem_append, ih, List.forall_mem_cons]

theorem forall_mem_pairVariables {pairs : List (Expr × Expr)} :
    (∀ name ∈ pairVariables pairs, P name) ↔ ∀ pair ∈ pairs,
      (∀ name ∈ pair.1.variableNames, P name) ∧ ∀ name ∈ pair.2.variableNames, P name := by
  induction pairs with
  | nil => simp [pairVariables]
  | cons pair rest ih =>
    rw [pairVariables, List.forall_mem_append, List.forall_mem_append, ih, List.forall_mem_cons]

theorem forall_mem_keywordVariables {keywords : List (String × Expr)} :
    (∀ name ∈ keywordVariables keywords, P name) ↔
      ∀ keyword ∈ keywords, ∀ name ∈ keyword.2.variableNames, P name := by
  induction keywords with
  | nil => simp [keywordVariables]
  | cons keyword rest ih => rw [keywordVariables, List.forall_mem_append, ih, List.forall_mem_cons]

end Expr

/-! ## Failures for other causes -/

/-- No variable is missed: if there is no result, the cause is another one. -/
def Outcome.Finds {α : Type} (x : Outcome α) : Prop := ∀ name, x ≠ .error (.undefinedVariable name)

def Traced.Finds {α : Type} (m : Traced α) : Prop := ∀ trace, Outcome.Finds (m trace)

section

variable {α β : Type}

namespace Outcome

theorem finds_ok (a : α) : Finds (.ok a) := nofun

theorem finds_error {failure : Failure} (h : ∀ name, failure ≠ .undefinedVariable name) :
    Finds (.error failure : Outcome α) := by
  rintro name ⟨⟩
  exact h name rfl

theorem Finds.bind {x : Outcome α} {f : α → Outcome β} (hx : x.Finds) (hf : ∀ a, (f a).Finds) :
    (x >>= f).Finds := by
  intro name h
  cases x with
  | ok a => exact hf a name h
  | error failure =>
    cases h
    exact hx name rfl

theorem Finds.map {x : Outcome α} {f : α → β} (hx : x.Finds) : (f <$> x).Finds := by
  intro name h
  cases x with
  | ok a => cases h
  | error failure =>
    cases h
    exact hx name rfl

theorem finds_ofArithmetic (x : Except Number.ArithmeticFault α) : (ofArithmetic x).Finds := by
  cases x with
  | ok a => exact finds_ok a
  | error fault => exact finds_error nofun

end Outcome

namespace Traced

theorem finds_pure (a : α) : Finds (pure a) := fun _ => Outcome.finds_ok _

theorem finds_throw {failure : Failure} (h : ∀ name, failure ≠ .undefinedVariable name) :
    Finds (throw failure : Traced α) := fun _ => Outcome.finds_error h

theorem Finds.bind {m : Traced α} {k : α → Traced β} (hm : m.Finds) (hk : ∀ a, (k a).Finds) :
    (m >>= k).Finds :=
  fun trace => (hm trace).bind fun (a, after) => hk a after

theorem finds_lift {x : Outcome α} (hx : x.Finds) : Finds (liftM x : Traced α) := by
  cases x with
  | ok a => exact finds_pure a
  | error failure =>
    refine finds_throw ?_
    rintro name rfl
    exact hx name rfl

end Traced

end

open Outcome (finds_ok finds_error finds_ofArithmetic)

/-! ## Operations -/

namespace Value

variable (v : Value) (name : Option String)

theorem finds_expected {α : Type} (kind : String) : (v.expected name kind : Outcome α).Finds :=
  finds_error nofun

theorem finds_assertString : (v.assertString name).Finds := by
  unfold assertString
  split
  · exact finds_ok _
  · exact finds_expected _ _ _

theorem finds_assertNumber : (v.assertNumber name).Finds := by
  unfold assertNumber
  split
  · exact finds_ok _
  · exact finds_expected _ _ _

theorem finds_assertMap : (v.assertMap name).Finds := by
  unfold assertMap
  split
  · exact finds_ok _
  · exact finds_expected _ _ _

theorem finds_equals (w : Value) : (v.equals w).Finds := by
  unfold equals
  split
  · exact finds_ok _
  · split
    · exact finds_ofArithmetic _
    · exact finds_ok _
  · exact finds_ok _

end Value

namespace Number

variable (a b : Number)

theorem finds_agreeing (op : String) : (a.agreeing b op).Finds := by
  unfold agreeing
  split
  · exact finds_ok _
  · split
    · exact finds_ok _
    · exact finds_error nofun

theorem finds_additive (op : String)
    (f : Magnitude → Magnitude → Except ArithmeticFault Magnitude) : (additive op f a b).Finds :=
  (finds_agreeing a b op).bind fun _ => (finds_ofArithmetic _).bind fun _ => finds_ok _

theorem finds_times : (a.times b).Finds := (finds_ofArithmetic _).bind fun _ => finds_ok _

theorem finds_dividedBy : (a.dividedBy b).Finds := (finds_ofArithmetic _).bind fun _ => finds_ok _

theorem finds_compare : (a.compare b).Finds :=
  (finds_agreeing a b "<").bind fun _ => finds_ofArithmetic _

theorem finds_assertInt (name : Option String) : (a.assertInt name).Finds := by
  refine (finds_ofArithmetic _).bind fun isInt => ?_
  cases isInt with
  | true => exact finds_ofArithmetic _
  | false => exact finds_error nofun

theorem finds_assertUnitless (name : Option String) : (a.assertUnitless name).Finds := by
  unfold assertUnitless
  split
  · exact finds_error nofun
  · exact finds_ok _

end Number

namespace Operation

theorem finds_onNumbers (op : BinaryOp) (a b : Number) : (onNumbers op a b).Finds := by
  have hordered (test : Number.Magnitude → Bool) :
      (do return Value.bool (test (← a.compare b)) : Outcome Value).Finds :=
    (Number.finds_compare a b).bind fun _ => finds_ok _
  cases op with
  | add | sub | mod => exact (Number.finds_additive a b _ _).map
  | mul => exact (Number.finds_times a b).map
  | div => exact (Number.finds_dividedBy a b).map
  | lt | le | gt | ge => exact hordered _
  | or | and | eq | ne => exact finds_error nofun

theorem finds_onTexts (op : BinaryOp) (a b : Value) : (onTexts op a b).Finds := by
  unfold onTexts
  split
  · exact finds_ok _
  · exact finds_ok _
  · exact finds_ok _
  · exact finds_ok _
  · exact finds_error nofun

theorem finds_apply (op : BinaryOp) (a b : Value) : (apply op a b).Finds := by
  unfold apply
  split
  · exact (Value.finds_equals _ _).map
  · exact (Value.finds_equals _ _).bind fun _ => finds_ok _
  · exact finds_onNumbers _ _ _
  · exact finds_onTexts _ _ _

end Operation

/-! ## Built-in functions -/

namespace Builtin

theorem finds_proportion
    (whole : Number.Magnitude → Except Number.ArithmeticFault Number.Magnitude) (name : String)
    (v : Value) : (proportion whole name v).Finds := by
  refine (Value.finds_assertNumber _ _).bind fun n => ?_
  cases percent? n with
  | some m => exact finds_ofArithmetic _
  | none => exact (Number.finds_assertUnitless _ _).bind fun _ => finds_ok _

theorem finds_percentage (name : String) (v : Value) : (percentage name v).Finds := by
  refine (Value.finds_assertNumber _ _).bind fun n => ?_
  dsimp only
  split
  · exact finds_error nofun
  · exact finds_ok _

theorem finds_degrees (v : Value) : (degrees v).Finds := by
  refine (Value.finds_assertNumber _ _).bind fun n => ?_
  dsimp only
  split
  · exact finds_error nofun
  · exact finds_ok _

theorem finds_rgb (red green blue opacity : Value) : (rgb red green blue opacity).Finds :=
  (finds_proportion _ _ _).bind fun _ => (finds_proportion _ _ _).bind fun _ =>
    (finds_proportion _ _ _).bind fun _ => (finds_proportion _ _ _).bind fun _ =>
      (finds_ofArithmetic _).bind fun _ => finds_ok _

theorem finds_hsl (hue saturation lightness opacity : Value) :
    (hsl hue saturation lightness opacity).Finds :=
  (finds_degrees _).bind fun _ => (finds_percentage _ _).bind fun _ =>
    (finds_percentage _ _).bind fun _ => (finds_proportion _ _ _).bind fun _ =>
      (finds_ofArithmetic _).bind fun _ => finds_ok _

theorem finds_mapGet (map key keys : Value) : (mapGet map key keys).Finds :=
  (Value.finds_assertMap _ _).bind fun _ => finds_ok _

theorem finds_nth (list index : Value) : (nth list index).Finds := by
  refine (Value.finds_assertNumber _ _).bind fun number =>
    (Number.finds_assertInt _ _).bind fun n => ?_
  dsimp only
  split
  · exact finds_error nofun
  · split
    · exact finds_ok _
    · exact finds_error nofun

/-- What a built-in function hands back or fails with is told by one of these. -/
theorem finds_body {f : Function} (hf : f ∈ functions) (arguments : List Value) :
    (f.body arguments >>= Reply.awaited).Finds := by
  have hvalue {x : Outcome Value} (hx : x.Finds) :
      ((Reply.value <$> x) >>= Reply.awaited).Finds := by
    cases x with
    | ok v => exact finds_ok _
    | error failure =>
      refine finds_error ?_
      rintro name rfl
      exact hx name rfl
  simp only [functions, List.mem_cons, List.not_mem_nil, or_false] at hf
  rcases hf with rfl | rfl | rfl | rfl | rfl | rfl | rfl | rfl | rfl | rfl | rfl | rfl
  · exact hvalue (finds_rgb _ _ _ _)
  · exact hvalue (finds_rgb _ _ _ _)
  · exact hvalue (finds_hsl _ _ _ _)
  · exact hvalue (finds_hsl _ _ _ _)
  · exact hvalue (finds_mapGet _ _ _)
  · exact hvalue (finds_nth _ _)
  · exact hvalue (finds_ok _)
  · exact hvalue (finds_ok _)
  · exact hvalue ((Value.finds_assertNumber _ _).bind fun _ => finds_ok _)
  · exact hvalue ((Value.finds_assertNumber _ _).bind fun _ => finds_ok _)
  · exact hvalue ((Value.finds_assertString _ _).bind fun _ => finds_ok _)
  · exact hvalue ((Value.finds_assertString _ _).bind fun _ => finds_ok _)

end Builtin

/-! ## Evaluation -/

namespace Signature

theorem finds_bindFrom (function : String) (parameters : List Parameter) (positional : List Value)
    (keywords : Named Value) (slots : List (Option Value)) (rest : List Value) :
    (bindFrom function parameters positional keywords slots rest).Finds := by
  fun_induction bindFrom function parameters positional keywords slots rest with
  | case1 => exact finds_ok _
  | case2 | case3 | case5 | case9 =>
    refine finds_error ?_
    rintro _ ⟨⟩
  | case4 _ _ _ _ _ _ _ ih => exact ih
  | case6 _ _ _ _ _ _ _ _ _ ih => exact ih
  | case7 _ _ _ _ _ _ _ _ ih => exact ih
  | case8 _ _ _ _ _ _ _ _ ih => exact ih

end Signature

namespace Evaluation

open Traced (finds_pure finds_throw finds_lift)

variable {scope : Scope} {default : Expr → Traced Value}

theorem finds_hasKey (key : Value) (pairs : List (Value × Value)) : (hasKey key pairs).Finds := by
  induction pairs with
  | nil => exact finds_ok _
  | cons pair rest ih =>
    refine (Value.finds_equals _ _).bind fun found => ?_
    cases found with
    | true => exact finds_ok _
    | false => exact ih

theorem finds_invoke {f : Function} {arguments : List Value}
    (h : (f.body arguments >>= Reply.awaited).Finds) : (invoke f arguments).Finds := by
  intro trace
  rw [invoke_apply]
  split
  · exact finds_ok _
  · exact finds_error nofun
  · next failure hfailure =>
    split
    · refine finds_error ?_
      rintro name rfl
      exact h name hfailure
    · exact finds_error nofun

theorem finds_fillSlots {parameters : List Parameter}
    (h : ∀ p ∈ parameters, ∀ e, p.default = some e → (default e).Finds)
    (slots : List (Option Value)) : (fillSlots default slots parameters).Finds := by
  induction parameters generalizing slots with
  | nil => rcases slots with _ | ⟨_ | v, slots⟩ <;> exact finds_pure _
  | cons p parameters ih =>
    obtain ⟨hp, hparameters⟩ := List.forall_mem_cons.mp h
    have hrest (v : Value) (slots : List (Option Value)) :
        (do return v :: (← fillSlots default slots parameters) : Traced (List Value)).Finds :=
      (ih hparameters slots).bind fun _ => finds_pure _
    rcases slots with _ | ⟨_ | v, slots⟩
    · exact finds_pure _
    · simp only [fillSlots]
      cases hd : p.default with
      | none =>
        have hmissing : (throw (.missingArgument p.name "") : Traced Value).Finds := by
          refine finds_throw ?_
          rintro _ ⟨⟩
        exact hmissing.bind fun v => hrest v slots
      | some e => exact (hp e hd).bind fun v => hrest v slots
    · exact hrest v slots

structure FunctionsFind (scope : Scope) (default : Expr → Traced Value) : Prop where
  body : ∀ name f, scope.functions.find? name = some f → ∀ arguments,
    (f.body arguments >>= Reply.awaited).Finds
  defaults : ∀ name f, scope.functions.find? name = some f → ∀ p ∈ f.signature.parameters,
    ∀ e, p.default = some e → (default e).Finds

theorem finds_call (h : FunctionsFind scope default) (name : String) (positional : List Value)
    (keywords : Named Value) : (call scope default name positional keywords).Finds := by
  unfold call
  cases hf : scope.functions.find? name with
  | none =>
    dsimp only
    split
    · exact finds_pure _
    · exact finds_throw nofun
  | some f =>
    refine (finds_lift (Signature.finds_bindFrom _ _ _ _ _ _)).bind fun binding => ?_
    refine (finds_fillSlots (fun p hp => ?_) _).bind fun _ => finds_invoke (h.body name f hf _)
    exact h.defaults name f hf p (List.mem_filter.mp hp).1

def AreSet (scope : Scope) (names : List String) : Prop :=
  ∀ name ∈ names, name ∈ scope.assigned.map Prod.fst

theorem areSet_append_iff {names others : List String} :
    AreSet scope (names ++ others) ↔ AreSet scope names ∧ AreSet scope others :=
  List.forall_mem_append

mutual

theorem finds_evaluateWith (h : FunctionsFind scope default) (e : Expr)
    (he : AreSet scope e.variableNames) : (evaluateWith scope default e).Finds := by
  match e with
  | .literal v =>
    simp only [evaluateWith]
    exact finds_pure v
  | .variable name =>
    simp only [evaluateWith]
    cases hv : scope.assigned.get? name with
    | some v => exact finds_pure v
    | none => exact absurd (he name List.mem_cons_self) (Named.get?_eq_none_iff.mp hv)
  | .list items separator bracketed =>
    simp only [evaluateWith]
    exact (finds_evaluateItems h items he).bind fun _ => finds_pure _
  | .map pairs =>
    simp only [evaluateWith]
    exact (finds_evaluatePairs h [] pairs he).bind fun _ => finds_pure _
  | .unary op e =>
    simp only [evaluateWith]
    exact (finds_evaluateWith h e he).bind fun _ => finds_pure _
  | .binary op left right =>
    obtain ⟨hleft, hright⟩ := areSet_append_iff.mp he
    have hl := finds_evaluateWith h left hleft
    have hr := finds_evaluateWith h right hright
    -- The right operand of `and` and `or` may be left alone.
    cases op with
    | and =>
      simp only [evaluateWith]
      refine hl.bind fun a => ?_
      split
      · exact hr
      · exact finds_pure a
    | or =>
      simp only [evaluateWith]
      refine hl.bind fun a => ?_
      split
      · exact finds_pure a
      · exact hr
    | _ =>
      simp only [evaluateWith]
      exact hl.bind fun a => hr.bind fun b => finds_lift (Operation.finds_apply _ a b)
  | .call name arguments keywords none =>
    obtain ⟨harguments, hkeywords⟩ := areSet_append_iff.mp he
    simp only [evaluateWith]
    exact (finds_evaluateItems h arguments harguments).bind fun _ =>
      (finds_evaluateKeywords h [] keywords hkeywords).bind fun _ => finds_call h name _ _
  | .call name arguments keywords (some rest) =>
    obtain ⟨hfront, hrest⟩ := areSet_append_iff.mp he
    obtain ⟨harguments, hkeywords⟩ := areSet_append_iff.mp hfront
    simp only [evaluateWith]
    exact (finds_evaluateItems h arguments harguments).bind fun _ =>
      (finds_evaluateKeywords h [] keywords hkeywords).bind fun _ =>
        (finds_evaluateWith h rest hrest).bind fun _ => finds_call h name _ _

theorem finds_evaluateItems (h : FunctionsFind scope default) (es : List Expr)
    (hes : AreSet scope (Expr.itemVariables es)) : (evaluateItems scope default es).Finds := by
  match es with
  | [] => exact finds_pure []
  | e :: rest =>
    obtain ⟨hfirst, hrest⟩ := areSet_append_iff.mp hes
    simp only [evaluateItems]
    exact (finds_evaluateWith h e hfirst).bind fun _ =>
      (finds_evaluateItems h rest hrest).bind fun _ => finds_pure _

theorem finds_evaluatePairs (h : FunctionsFind scope default) (before : List (Value × Value))
    (pairs : List (Expr × Expr)) (hpairs : AreSet scope (Expr.pairVariables pairs)) :
    (evaluatePairs scope default before pairs).Finds := by
  match pairs with
  | [] =>
    simp only [evaluatePairs]
    exact finds_pure before
  | (key, value) :: rest =>
    obtain ⟨hfront, hrest⟩ := areSet_append_iff.mp hpairs
    obtain ⟨hkey, hvalue⟩ := areSet_append_iff.mp hfront
    simp only [evaluatePairs]
    refine (finds_evaluateWith h key hkey).bind fun k =>
      (finds_lift (finds_hasKey k before)).bind fun found => ?_
    have hgoing := (finds_evaluateWith h value hvalue).bind fun v =>
      finds_evaluatePairs h (before ++ [(k, v)]) rest hrest
    split
    · have hduplicate : (throw (.duplicateKey k.css) : Traced PUnit).Finds := finds_throw nofun
      exact hduplicate.bind fun _ => hgoing
    · exact hgoing

theorem finds_evaluateKeywords (h : FunctionsFind scope default) (before : Named Value)
    (keywords : List (String × Expr)) (hkeywords : AreSet scope (Expr.keywordVariables keywords)) :
    (evaluateKeywords scope default before keywords).Finds := by
  match keywords with
  | [] =>
    simp only [evaluateKeywords]
    exact finds_pure before
  | (name, e) :: rest =>
    obtain ⟨hfirst, hrest⟩ := areSet_append_iff.mp hkeywords
    simp only [evaluateKeywords]
    exact (finds_evaluateWith h e hfirst).bind fun _ => finds_evaluateKeywords h _ rest hrest

end

/-- With the built-in functions, whose defaults need no variables, evaluation finds the variables
of an expression if they are set. -/
theorem finds_evaluate (hscope : scope.functions = Builtin.registry) {e : Expr}
    (he : AreSet scope e.variableNames) : (evaluate scope e).Finds := by
  have hbody : ∀ name f, scope.functions.find? name = some f → ∀ arguments,
      (f.body arguments >>= Reply.awaited).Finds := by
    intro name f hf
    rw [hscope] at hf
    exact Builtin.finds_body (Builtin.mem_of_get? hf).2
  have hliteral : ∀ name f, scope.functions.find? name = some f → ∀ p ∈ f.signature.parameters,
      ∀ e, p.default = some e → ∃ v, e = .literal v := by
    intro name f hf p hp e he
    rw [hscope] at hf
    exact Builtin.default_literal (Builtin.mem_of_get? hf).2 hp he
  unfold evaluate
  cases defaultCount scope.functions with
  | zero =>
    have hendless : (throw .endless : Traced Value).Finds := finds_throw nofun
    exact finds_evaluateWith ⟨hbody, fun _ _ _ _ _ _ _ => hendless⟩ e he
  | succ n =>
    refine finds_evaluateWith ⟨hbody, fun name f hf p hp x hx => ?_⟩ e he
    obtain ⟨v, rfl⟩ := hliteral name f hf p hp x hx
    rw [evaluateTo_literal]
    exact finds_pure v

end Evaluation

end SassData
