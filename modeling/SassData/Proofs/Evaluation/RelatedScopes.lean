import SassData.Proofs.Session.SessionSteps

/-!
# Evaluation in two scopes

Two scopes with the same variables evaluate an expression in related ways if they do so with every
call in it. What the relation says does not matter: it has to hold between equal results and between
equal failures, and to go along with one step after another.
-/

namespace SassData

set_option autoImplicit false

namespace Expr

mutual

def functions : Expr → List String
  | .literal _ | .variable _ => []
  | .binary _ left right => left.functions ++ right.functions
  | .unary _ operand => operand.functions
  | .list items _ _ => itemFunctions items
  | .map pairs => pairFunctions pairs
  | .call function arguments keywords none =>
    function :: (itemFunctions arguments ++ keywordFunctions keywords)
  | .call function arguments keywords (some rest) =>
    function :: (itemFunctions arguments ++ keywordFunctions keywords ++ rest.functions)

def itemFunctions : List Expr → List String
  | [] => []
  | e :: rest => e.functions ++ itemFunctions rest

def pairFunctions : List (Expr × Expr) → List String
  | [] => []
  | (key, value) :: rest => key.functions ++ value.functions ++ pairFunctions rest

def keywordFunctions : List (String × Expr) → List String
  | [] => []
  | (_, e) :: rest => e.functions ++ keywordFunctions rest

end

end Expr

/-- A relation between computations that goes along with how evaluations are put together. -/
structure IsCongruence (R : ∀ α : Type, Traced α → Traced α → Prop) : Prop where
  pure : ∀ {α : Type} (a : α), R α (pure a) (pure a)
  throw : ∀ {α : Type} (failure : Failure), R α (throw failure) (throw failure)
  bind : ∀ {α β : Type} {m n : Traced α} {k l : α → Traced β},
    R α m n → (∀ a, R β (k a) (l a)) → R β (m >>= k) (n >>= l)

namespace Evaluation

variable {R : ∀ α : Type, Traced α → Traced α → Prop} {s t : Scope} {d e : Expr → Traced Value}

theorem lift_related (hR : IsCongruence R) {α : Type} (x : Outcome α) :
    R α (liftM x) (liftM x) := by
  cases x with
  | error failure => exact hR.throw failure
  | ok a => exact hR.pure a

/-! ## Calls -/

theorem fillSlots_related (hR : IsCongruence R) {parameters : List Parameter}
    (h : ∀ p ∈ parameters, ∀ x, p.default = some x → R Value (d x) (e x))
    (slots : List (Option Value)) :
    R (List Value) (fillSlots d slots parameters) (fillSlots e slots parameters) := by
  induction parameters generalizing slots with
  | nil => rcases slots with _ | ⟨_ | v, slots⟩ <;> exact hR.pure []
  | cons p parameters ih =>
    have ih := ih fun q hq => h q (List.mem_cons_of_mem p hq)
    rcases slots with _ | ⟨_ | v, slots⟩
    · exact hR.pure []
    · have hp := h p List.mem_cons_self
      have hrest (v : Value) := hR.bind (ih slots) fun values => hR.pure (v :: values)
      simp only [fillSlots]
      cases hd : p.default with
      | none => exact hR.bind (hR.throw _) hrest
      | some x => exact hR.bind (hp x hd) hrest
    · exact hR.bind (ih slots) fun values => hR.pure (v :: values)

theorem call_related (hR : IsCongruence R) {function : String}
    (hfind : s.functions.find? function = t.functions.find? function)
    (hdefaults : ∀ f, s.functions.find? function = some f → ∀ p ∈ f.signature.parameters, ∀ x,
      p.default = some x → R Value (d x) (e x))
    (hinvoke : ∀ f, s.functions.find? function = some f → ∀ arguments,
      R Value (invoke f arguments) (invoke f arguments))
    (positional : List Value) (keywords : Named Value) :
    R Value (call s d function positional keywords) (call t e function positional keywords) := by
  simp only [call, ← hfind]
  cases hf : s.functions.find? function with
  | none =>
    dsimp only
    split
    · exact hR.pure _
    · exact hR.throw _
  | some f =>
    refine hR.bind (lift_related hR _) fun binding => ?_
    refine hR.bind (fillSlots_related hR ?_ _) fun _ => hinvoke f hf _
    exact fun p hp => hdefaults f hf p (List.mem_filter.mp hp).1

/-! ## Expressions -/

def CallsRelated (R : ∀ α : Type, Traced α → Traced α → Prop) (s t : Scope)
    (d e : Expr → Traced Value) (functions : List String) : Prop :=
  ∀ function ∈ functions, ∀ positional keywords,
    R Value (call s d function positional keywords) (call t e function positional keywords)

theorem callsRelated_append_iff {fs gs : List String} :
    CallsRelated R s t d e (fs ++ gs) ↔ CallsRelated R s t d e fs ∧ CallsRelated R s t d e gs :=
  List.forall_mem_append

theorem callsRelated_cons_iff {function : String} {fs : List String} :
    CallsRelated R s t d e (function :: fs) ↔
      (∀ positional keywords, R Value (call s d function positional keywords)
        (call t e function positional keywords)) ∧ CallsRelated R s t d e fs :=
  List.forall_mem_cons

mutual

theorem evaluateWith_related (hR : IsCongruence R) (hs : s.assigned = t.assigned)
    (x : Expr) (hx : CallsRelated R s t d e x.functions) :
    R Value (evaluateWith s d x) (evaluateWith t e x) := by
  match x with
  | .literal v =>
    simp only [evaluateWith]
    exact hR.pure v
  | .variable name =>
    simp only [evaluateWith, hs]
    split
    · exact hR.pure _
    · exact hR.throw _
  | .list items separator bracketed =>
    simp only [evaluateWith]
    exact hR.bind (evaluateItems_related hR hs items hx) fun _ => hR.pure _
  | .map pairs =>
    simp only [evaluateWith]
    exact hR.bind (evaluatePairs_related hR hs [] pairs hx) fun _ => hR.pure _
  | .unary op x =>
    simp only [evaluateWith]
    exact hR.bind (evaluateWith_related hR hs x hx) fun _ => hR.pure _
  | .binary op left right =>
    rw [Expr.functions, callsRelated_append_iff] at hx
    have hl := evaluateWith_related hR hs left hx.1
    have hr := evaluateWith_related hR hs right hx.2
    cases op with
    | and =>
      simp only [evaluateWith]
      refine hR.bind hl fun a => ?_
      split
      · exact hr
      · exact hR.pure a
    | or =>
      simp only [evaluateWith]
      refine hR.bind hl fun a => ?_
      split
      · exact hR.pure a
      · exact hr
    | _ =>
      simp only [evaluateWith]
      exact hR.bind hl fun a => hR.bind hr fun b => lift_related hR _
  | .call function arguments keywords none =>
    rw [Expr.functions, callsRelated_cons_iff, callsRelated_append_iff] at hx
    simp only [evaluateWith]
    exact hR.bind (evaluateItems_related hR hs arguments hx.2.1) fun _ =>
      hR.bind (evaluateKeywords_related hR hs [] keywords hx.2.2) fun _ => hx.1 _ _
  | .call function arguments keywords (some rest) =>
    rw [Expr.functions, callsRelated_cons_iff, callsRelated_append_iff,
      callsRelated_append_iff] at hx
    simp only [evaluateWith]
    exact hR.bind (evaluateItems_related hR hs arguments hx.2.1.1) fun _ =>
      hR.bind (evaluateKeywords_related hR hs [] keywords hx.2.1.2) fun _ =>
        hR.bind (evaluateWith_related hR hs rest hx.2.2) fun _ => hx.1 _ _

theorem evaluateItems_related (hR : IsCongruence R) (hs : s.assigned = t.assigned)
    (xs : List Expr)
    (hx : CallsRelated R s t d e (Expr.itemFunctions xs)) :
    R (List Value) (evaluateItems s d xs) (evaluateItems t e xs) := by
  match xs with
  | [] => exact hR.pure []
  | x :: rest =>
    rw [Expr.itemFunctions, callsRelated_append_iff] at hx
    simp only [evaluateItems]
    exact hR.bind (evaluateWith_related hR hs x hx.1) fun _ =>
      hR.bind (evaluateItems_related hR hs rest hx.2) fun _ => hR.pure _

theorem evaluatePairs_related (hR : IsCongruence R) (hs : s.assigned = t.assigned)
    (before : List (Value × Value)) (pairs : List (Expr × Expr))
    (hx : CallsRelated R s t d e (Expr.pairFunctions pairs)) :
    R (List (Value × Value)) (evaluatePairs s d before pairs)
      (evaluatePairs t e before pairs) := by
  match pairs with
  | [] =>
    simp only [evaluatePairs]
    exact hR.pure before
  | (key, value) :: rest =>
    rw [Expr.pairFunctions, callsRelated_append_iff, callsRelated_append_iff] at hx
    simp only [evaluatePairs]
    refine hR.bind (evaluateWith_related hR hs key hx.1.1) fun k =>
      hR.bind (lift_related hR _) fun found => ?_
    have hrest := hR.bind (evaluateWith_related hR hs value hx.1.2) fun v =>
      evaluatePairs_related hR hs (before ++ [(k, v)]) rest hx.2
    split
    · exact hR.bind (hR.throw _) fun _ => hrest
    · exact hrest

theorem evaluateKeywords_related (hR : IsCongruence R) (hs : s.assigned = t.assigned)
    (before : Named Value) (keywords : List (String × Expr))
    (hx : CallsRelated R s t d e (Expr.keywordFunctions keywords)) :
    R (Named Value) (evaluateKeywords s d before keywords)
      (evaluateKeywords t e before keywords) := by
  match keywords with
  | [] =>
    simp only [evaluateKeywords]
    exact hR.pure before
  | (_, x) :: rest =>
    rw [Expr.keywordFunctions, callsRelated_append_iff] at hx
    simp only [evaluateKeywords]
    exact hR.bind (evaluateWith_related hR hs x hx.1) fun _ =>
      evaluateKeywords_related hR hs _ rest hx.2

end

end Evaluation

end SassData
