import SassData.Proofs.Evaluation.ForeignFailures
import SassData.Proofs.Evaluation.FunctionRegistries
import SassData.Proofs.Source.TokenReading

/-!
# Style sheets that get stuck

Where the evaluation of an expression comes to an operator, or to two keys of a map, for which two
numbers have no result, it is stuck there: what it fails with is no failure of style sheets. That is
the only way to such a failure, for an expression, for a statement and for a whole style sheet.
-/

namespace SassData

set_option autoImplicit false

open Outcome (not_escapes_ok escapes_error_iff escapes_bind_iff escapes_bind_of_not)

namespace Evaluation

/-! ## Expressions -/

/-- A key is compared with those before it as long as none of them is equal to it, and one of the
comparisons has no result. -/
def KeyStuck (key : Value) : List (Value × Value) → Prop
  | [] => False
  | (k, _) :: rest =>
    Operation.UnansweredValues .eq key k ∨ key.equals k = .ok false ∧ KeyStuck key rest

theorem escapes_hasKey_iff {key : Value} {before : List (Value × Value)} :
    Outcome.Escapes (hasKey key before) ↔ KeyStuck key before := by
  induction before with
  | nil => exact iff_of_false (not_escapes_ok false) id
  | cons pair rest ih =>
    have hequals : Outcome.Escapes (key.equals pair.1) ↔
        Operation.UnansweredValues .eq key pair.1 :=
      Outcome.escapes_map_iff.symm.trans (@Operation.escapes_apply_iff .eq key pair.1)
    simp only [hasKey, KeyStuck, escapes_bind_iff, hequals]
    refine or_congr_right ?_
    constructor
    · rintro ⟨found, h, he⟩
      cases found with
      | true => exact absurd he (not_escapes_ok true)
      | false => exact ⟨h, ih.mp he⟩
    · rintro ⟨h, he⟩
      exact ⟨false, h, ih.mpr he⟩

section

variable (scope : Scope) (default : Expr → Traced Value)

mutual

/-- The evaluation of an expression comes to an operator or a comparison of keys that has no
result. What stands to the left has been evaluated then, and an operand that is not needed does not
count. -/
def GetsStuck (trace : List Invocation) : Expr → Prop
  | .literal _ | .variable _ => False
  | .list items _ _ => ItemsGetStuck trace items
  | .map pairs => PairsGetStuck [] trace pairs
  | .unary _ e => GetsStuck trace e
  | .binary .and left right =>
    GetsStuck trace left ∨ ∃ a after, evaluateWith scope default left trace = .ok (a, after) ∧
      a.isTruthy = true ∧ GetsStuck after right
  | .binary .or left right =>
    GetsStuck trace left ∨ ∃ a after, evaluateWith scope default left trace = .ok (a, after) ∧
      a.isTruthy = false ∧ GetsStuck after right
  | .binary op left right =>
    GetsStuck trace left ∨ ∃ a middle, evaluateWith scope default left trace = .ok (a, middle) ∧
      (GetsStuck middle right ∨ ∃ b after,
        evaluateWith scope default right middle = .ok (b, after) ∧
          Operation.UnansweredValues op a b)
  | .call _ arguments keywords none =>
    ItemsGetStuck trace arguments ∨ ∃ positional middle,
      evaluateItems scope default arguments trace = .ok (positional, middle) ∧
        KeywordsGetStuck [] middle keywords
  | .call _ arguments keywords (some rest) =>
    ItemsGetStuck trace arguments ∨ ∃ positional middle,
      evaluateItems scope default arguments trace = .ok (positional, middle) ∧
        (KeywordsGetStuck [] middle keywords ∨ ∃ named after,
          evaluateKeywords scope default [] keywords middle = .ok (named, after) ∧
            GetsStuck after rest)

def ItemsGetStuck (trace : List Invocation) : List Expr → Prop
  | [] => False
  | e :: rest =>
    GetsStuck trace e ∨ ∃ v after, evaluateWith scope default e trace = .ok (v, after) ∧
      ItemsGetStuck after rest

def PairsGetStuck (before : List (Value × Value)) (trace : List Invocation) :
    List (Expr × Expr) → Prop
  | [] => False
  | (key, value) :: rest =>
    GetsStuck trace key ∨ ∃ k middle, evaluateWith scope default key trace = .ok (k, middle) ∧
      (KeyStuck k before ∨ hasKey k before = .ok false ∧
        (GetsStuck middle value ∨ ∃ v after,
          evaluateWith scope default value middle = .ok (v, after) ∧
            PairsGetStuck (before ++ [(k, v)]) after rest))

def KeywordsGetStuck (before : Named Value) (trace : List Invocation) :
    List (String × Expr) → Prop
  | [] => False
  | (name, e) :: rest =>
    GetsStuck trace e ∨ ∃ v after, evaluateWith scope default e trace = .ok (v, after) ∧
      KeywordsGetStuck (Named.put name v before) after rest

end

end

def CallsContained (scope : Scope) (default : Expr → Traced Value) : Prop :=
  ∀ name positional keywords trace,
    ¬ Traced.Escapes (call scope default name positional keywords) trace

section

variable {scope : Scope} {default : Expr → Traced Value}

mutual

/-- An evaluation escapes exactly where it gets stuck. -/
theorem escapes_evaluateWith_iff (h : CallsContained scope default) (e : Expr)
    (trace : List Invocation) :
    Traced.Escapes (evaluateWith scope default e) trace ↔ GetsStuck scope default trace e := by
  match e with
  | .literal v =>
    simp only [evaluateWith, GetsStuck, iff_false]
    exact not_escapes_ok _
  | .variable name =>
    simp only [evaluateWith, GetsStuck, iff_false]
    split
    · exact not_escapes_ok _
    · exact fun he => Bool.noConfusion (escapes_error_iff.mp he)
  | .list items separator bracketed =>
    simp only [evaluateWith, GetsStuck, Traced.escapes_bind_pure_iff,
        escapes_evaluateItems_iff h items]
  | .map pairs =>
    simp only [evaluateWith, GetsStuck, Traced.escapes_bind_pure_iff,
        escapes_evaluatePairs_iff h [] pairs]
  | .unary op e =>
    simp only [evaluateWith, GetsStuck, Traced.escapes_bind_pure_iff, escapes_evaluateWith_iff h e]
  | .binary op left right =>
    have hl := escapes_evaluateWith_iff h left
    have hr := escapes_evaluateWith_iff h right
    cases op with
    | and =>
      simp only [evaluateWith, GetsStuck, Traced.escapes_bind_iff, hl]
      refine or_congr_right (exists_congr fun a => exists_congr fun after =>
        and_congr_right fun _ => ?_)
      cases a.isTruthy with
      | true => simpa using hr after
      | false => simpa using Traced.not_escapes_pure a
    | or =>
      simp only [evaluateWith, GetsStuck, Traced.escapes_bind_iff, hl]
      refine or_congr_right (exists_congr fun a => exists_congr fun after =>
        and_congr_right fun _ => ?_)
      cases a.isTruthy with
      | true => simpa using Traced.not_escapes_pure a
      | false => simpa using hr after
    | _ =>
      simp only [evaluateWith, GetsStuck, Traced.escapes_bind_iff, hl, hr,
        Traced.escapes_lift_iff, Operation.escapes_apply_iff]
  | .call name arguments keywords none =>
    have hcall : ∀ positional keywords after,
      ¬ Traced.Escapes (call scope default name positional keywords) after := h name
    simp only [evaluateWith, GetsStuck, Traced.escapes_bind_iff,
      escapes_evaluateItems_iff h arguments, escapes_evaluateKeywords_iff h [] keywords, hcall,
      and_false, exists_false, or_false]
  | .call name arguments keywords (some rest) =>
    have hcall : ∀ positional keywords after,
      ¬ Traced.Escapes (call scope default name positional keywords) after := h name
    simp only [evaluateWith, GetsStuck, Traced.escapes_bind_iff,
      escapes_evaluateItems_iff h arguments, escapes_evaluateKeywords_iff h [] keywords,
      escapes_evaluateWith_iff h rest, hcall, and_false, exists_false, or_false]

theorem escapes_evaluateItems_iff (h : CallsContained scope default) (es : List Expr)
    (trace : List Invocation) :
    Traced.Escapes (evaluateItems scope default es) trace ↔
      ItemsGetStuck scope default trace es := by
  match es with
  | [] => exact iff_of_false (not_escapes_ok _) id
  | e :: rest =>
    rw [evaluateItems, Traced.escapes_bind_iff]
    simp only [ItemsGetStuck, Traced.escapes_bind_pure_iff, escapes_evaluateWith_iff h e,
      escapes_evaluateItems_iff h rest]

theorem escapes_evaluatePairs_iff (h : CallsContained scope default)
    (before : List (Value × Value)) (pairs : List (Expr × Expr)) (trace : List Invocation) :
    Traced.Escapes (evaluatePairs scope default before pairs) trace ↔
      PairsGetStuck scope default before trace pairs := by
  match pairs with
  | [] =>
    simp only [evaluatePairs, PairsGetStuck, iff_false]
    exact not_escapes_ok _
  | (key, value) :: rest =>
    simp only [evaluatePairs, PairsGetStuck, Traced.escapes_bind_iff,
      escapes_evaluateWith_iff h key]
    refine or_congr_right (exists_congr fun k => exists_congr fun middle =>
      and_congr_right fun _ => ?_)
    rw [Traced.escapes_lift_iff, escapes_hasKey_iff]
    refine or_congr_right ?_
    -- The key is new from here on, since a key that is there fails as style sheets do.
    have hvalue : Traced.Escapes (do
        let v ← evaluateWith scope default value
        evaluatePairs scope default (before ++ [(k, v)]) rest) middle ↔
          GetsStuck scope default middle value ∨ ∃ v after,
            evaluateWith scope default value middle = .ok (v, after) ∧
              PairsGetStuck scope default (before ++ [(k, v)]) after rest := by
      simp only [Traced.escapes_bind_iff, escapes_evaluateWith_iff h value,
        escapes_evaluatePairs_iff h _ rest]
    rw [← hvalue]
    constructor
    · rintro ⟨found, after, hfound, he⟩
      obtain ⟨hnew, rfl⟩ := Traced.lift_eq_ok_iff.mp hfound
      cases found with
      | true =>
        rw [if_pos rfl, Traced.escapes_bind_iff] at he
        rcases he with he | ⟨_, _, hthrow, -⟩
        · exact Bool.noConfusion (escapes_error_iff.mp he)
        · cases hthrow
      | false => exact ⟨hnew, he⟩
    · rintro ⟨hnew, he⟩
      exact ⟨false, middle, Traced.lift_eq_ok_iff.mpr ⟨hnew, rfl⟩, he⟩

theorem escapes_evaluateKeywords_iff (h : CallsContained scope default) (before : Named Value)
    (keywords : List (String × Expr)) (trace : List Invocation) :
    Traced.Escapes (evaluateKeywords scope default before keywords) trace ↔
      KeywordsGetStuck scope default before trace keywords := by
  match keywords with
  | [] =>
    simp only [evaluateKeywords, KeywordsGetStuck, iff_false]
    exact not_escapes_ok _
  | (name, e) :: rest =>
    simp only [evaluateKeywords, KeywordsGetStuck, Traced.escapes_bind_iff,
      escapes_evaluateWith_iff h e, escapes_evaluateKeywords_iff h _ rest]

end

end

end Evaluation

/-! ## Style sheets -/

/-- Functions that fail as style sheets do: every default is a literal, and there is one. -/
structure Registry.Contained (functions : Registry) : Prop where
  literal : ∀ name f, functions.find? name = some f → ∀ p ∈ f.signature.parameters,
    ∀ e, p.default = some e → ∃ v, e = .literal v
  counted : Evaluation.defaultCount functions ≠ 0

namespace Session

def default (s : Session) : Expr → Traced Value :=
  Evaluation.evaluateTo ⟨s.functions, s.assigned⟩ (Evaluation.defaultCount s.functions - 1)

def ExprStuck (s : Session) (e : Expr) : Prop :=
  Evaluation.GetsStuck ⟨s.functions, s.assigned⟩ s.default s.trace e

/-- One of the values of a rule's declarations gets stuck, and all before it can be shown. -/
def DeclarationsStuck (s : Session) : List (String × Expr) → Prop
  | [] => False
  | (_, e) :: rest => s.ExprStuck e ∨ ∃ v trace text, s.evaluate e = .ok (v, trace) ∧
    declared? v = .ok text ∧ DeclarationsStuck { s with trace := trace } rest

/-- A statement gets stuck. A default that is not needed is not evaluated. -/
def StatementStuck (s : Session) : Statement → Prop
  | .assign name e flags => (Flag.default ∈ flags && s.isSet name) = false ∧ s.ExprStuck e
  | .rule _ declarations => s.DeclarationsStuck declarations
  | .debug e | .error e => s.ExprStuck e

/-- One of the statements gets stuck, and the run comes to it. -/
def RunStuck (s : Session) : List Statement → Prop
  | [] => False
  | statement :: rest => s.StatementStuck statement ∨
    ∃ next text, s.step statement = .ok (next, text) ∧ next.RunStuck rest

section

variable {s : Session}

theorem evaluate_eq (h : s.functions.Contained) (e : Expr) :
    s.evaluate e =
      Evaluation.evaluateWith ⟨s.functions, s.assigned⟩ s.default e s.trace := by
  obtain ⟨n, hn⟩ := Nat.exists_eq_succ_of_ne_zero h.counted
  simp only [Session.evaluate, Evaluation.evaluate, Session.default, hn, Evaluation.evaluateTo]
  rfl

theorem escapes_evaluate_iff (h : s.functions.Contained) (e : Expr) :
    Outcome.Escapes (s.evaluate e) ↔ s.ExprStuck e := by
  rw [evaluate_eq h]
  refine Evaluation.escapes_evaluateWith_iff (Evaluation.not_escapes_call ?_) e s.trace
  intro name f hf p hp e he trace
  obtain ⟨v, rfl⟩ := h.literal name f hf p hp e he
  rw [Session.default, Evaluation.evaluateTo_literal]
  exact Traced.not_escapes_pure v

theorem not_escapes_declared? (v : Value) : ¬ Outcome.Escapes (declared? v) := by
  unfold declared?
  split
  · exact not_escapes_ok _
  · exact fun he => Bool.noConfusion (escapes_error_iff.mp he)
  · exact fun he => Bool.noConfusion (escapes_error_iff.mp he)
  · exact not_escapes_ok _

theorem escapes_declarationLines_iff (h : s.functions.Contained)
    (declarations : List (String × Expr)) :
    Outcome.Escapes (s.declarationLines declarations) ↔ s.DeclarationsStuck declarations := by
  induction declarations generalizing s with
  | nil => exact iff_of_false (not_escapes_ok _) id
  | cons declaration rest ih =>
    simp only [declarationLines, DeclarationsStuck, escapes_bind_iff, escapes_evaluate_iff h,
      not_escapes_declared?, false_or]
    refine or_congr_right ?_
    constructor
    · rintro ⟨⟨v, trace⟩, hv, text, htext, he | ⟨result, -, he⟩⟩
      · exact ⟨v, trace, text, hv, htext, (@ih { s with trace := trace } h).mp he⟩
      · cases text <;> exact absurd he (not_escapes_ok _)
    · rintro ⟨v, trace, text, hv, htext, he⟩
      exact ⟨(v, trace), hv, text, htext, Or.inl ((@ih { s with trace := trace } h).mpr he)⟩

theorem escapes_step_iff (h : s.functions.Contained) (statement : Statement) :
    Outcome.Escapes (s.step statement) ↔ s.StatementStuck statement := by
  have hlast {α : Type} {e : Expr} {f : Value × List Invocation → Outcome α}
      (hf : ∀ result, ¬ Outcome.Escapes (f result)) :
      Outcome.Escapes (s.evaluate e >>= f) ↔ s.ExprStuck e := by
    rw [escapes_bind_of_not hf, escapes_evaluate_iff h]
  cases statement with
  | assign name e flags =>
    simp only [step, StatementStuck]
    cases Flag.default ∈ flags && s.isSet name with
    | true => exact iff_of_false (not_escapes_ok (s, none)) fun hs => Bool.noConfusion hs.1
    | false => exact (hlast fun _ => not_escapes_ok _).trans (and_iff_right rfl).symm
  | rule selector declarations =>
    have hlines := escapes_declarationLines_iff h declarations
    exact (escapes_bind_of_not fun _ => not_escapes_ok _).trans hlines
  | debug e => exact hlast fun _ => not_escapes_ok _
  | error e => exact hlast fun _ he => Bool.noConfusion (escapes_error_iff.mp he)

theorem functions_of_step {statement : Statement} {next : Session} {text : Option String}
    (h : s.step statement = .ok (next, text)) : next.functions = s.functions := by
  cases statement with
  | assign name e flags =>
    rw [step] at h
    split at h
    · cases h
      rfl
    · obtain ⟨_, -, h⟩ := Outcome.bind_eq_ok_iff.mp h
      cases h
      rfl
  | rule selector declarations =>
    rw [step] at h
    obtain ⟨⟨lines, last⟩, hlines, h⟩ := Outcome.bind_eq_ok_iff.mp h
    cases h
    obtain ⟨trace, rfl⟩ := exists_of_declarationLines hlines
    rfl
  | debug e =>
    obtain ⟨_, -, h⟩ := Outcome.bind_eq_ok_iff.mp h
    cases h
    rfl
  | error e =>
    obtain ⟨_, -, h⟩ := Outcome.bind_eq_ok_iff.mp h
    cases h

theorem escapes_run_iff (h : s.functions.Contained) (statements : List Statement) :
    Outcome.Escapes (s.run statements).2 ↔ s.RunStuck statements := by
  induction statements generalizing s with
  | nil => exact iff_of_false (not_escapes_ok _) id
  | cons statement rest ih =>
    rw [RunStuck, ← escapes_step_iff h, run]
    cases hstep : s.step statement with
    | error failure => simp [escapes_error_iff]
    | ok result =>
      obtain ⟨next, text⟩ := result
      have hnext : next.functions.Contained := functions_of_step hstep ▸ h
      rw [or_iff_right (not_escapes_ok (next, text))]
      constructor
      · intro he
        exact ⟨next, text, rfl, (ih hnext).mp (Outcome.escapes_map_iff.mp he)⟩
      · rintro ⟨_, _, hsame, he⟩
        cases hsame
        exact Outcome.escapes_map_iff.mpr ((ih hnext).mpr he)

end

end Session

end SassData
