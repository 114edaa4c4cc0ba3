import SassData.Engine.Session
import SassData.Proofs.Source.WrittenExpressions

/-!
# What is printed of plain values

Plain values are what data without floating-point numbers becomes: constants, integers, string
literals, comma lists and maps whose keys differ in what their marks enclose. The text of such a
value is read as an expression, and that expression has the value again, up to the separator of
empty lists, which no text shows.
-/

namespace SassData.Value

set_option autoImplicit false

open Source (Written IsStringLiteral)

mutual

def IsPlain : Value → Prop
  | null => True
  | bool _ => True
  | number n => ∃ k : Int, n = .ofInt k
  | string text => IsStringLiteral text
  | list items separator bracketed => separator = .comma ∧ bracketed = false ∧ AllPlain items
  | map pairs => pairs ≠ [] ∧ PairsPlain pairs ∧ (pairs.map fun pair => pair.1.plainText).Nodup
  | color _ => False
  | custom .. => False

def AllPlain : List Value → Prop
  | [] => True
  | v :: rest => IsPlain v ∧ AllPlain rest

def PairsPlain : List (Value × Value) → Prop
  | [] => True
  | (key, v) :: rest =>
    (∃ text, key = string text ∧ IsStringLiteral text) ∧ IsPlain v ∧ PairsPlain rest

end

/-! ## The expression that a text is read as -/

/-- A negative integer is read as the negation of a positive one. -/
def integerExpr (k : Int) : Expr :=
  if k < 0 then .unary .minus (.literal (.number (.ofInt (-k)))) else .literal (.number (.ofInt k))

mutual

def expr : Value → Expr
  | number ⟨.int k, _, _⟩ => integerExpr k
  | list [] _ _ => .list [] .undecided false
  | list (v :: rest) separator bracketed => .list (expr v :: exprs rest) separator bracketed
  | map pairs => .map (pairExprs pairs)
  | v => .literal v

def exprs : List Value → List Expr
  | [] => []
  | v :: rest => expr v :: exprs rest

def pairExprs : List (Value × Value) → List (Expr × Expr)
  | [] => []
  | (key, v) :: rest => (expr key, expr v) :: pairExprs rest

end

def integerTokens (k : Int) : List Source.Token :=
  if k < 0 then [.symbol .minus, .number (.ofInt (-k))] else [.number (.ofInt k)]

theorem css_integer (k : Int) : (number (.ofInt k)).css = toString k := by
  simp [css, Number.css, Number.ofInt, Number.ofMagnitude, Number.Magnitude.styleText,
    Number.unitText, Unit.text]

theorem lexes_integer (k : Int) :
    Source.Lexes (number (.ofInt k)).css.toList (integerTokens k) := by
  rw [css_integer, Int.toString_eq_repr, Int.repr_eq_if, integerTokens]
  by_cases hk : k < 0
  · rw [if_neg (by omega), if_pos hk]
    have hn : ((-k).toNat : Int) = -k := Int.toNat_of_nonneg (by omega)
    have := Source.lexes_negative (-k).toNat
    rw [hn] at this
    simpa using this
  · rw [if_pos (by omega), if_neg hk]
    have hn : (k.toNat : Int) = k := Int.toNat_of_nonneg (by omega)
    have := Source.lexes_numeral k.toNat
    rw [hn] at this
    simpa using this

theorem written_integer (k : Int) :
    Written (number (.ofInt k)).css.toList (integerExpr k) := by
  refine ⟨integerTokens k, lexes_integer k, ?_⟩
  unfold integerTokens integerExpr
  split
  · exact Source.reads_negative _
  · exact Source.reads_token fun _ => rfl

def itemText (v : Value) : List Char := (parens (inParens .comma v) v.css).toList

theorem itemText_of_not_inParens {v : Value} (h : inParens .comma v = false) :
    itemText v = v.css.toList := by
  rw [itemText, h, parens, if_neg (by decide)]

/-- As a value of a map it has the same text. -/
theorem inParensInMap_eq {v : Value} (h : v.IsPlain) : inParensInMap v = inParens .comma v := by
  match v with
  | list items separator bracketed =>
    obtain ⟨rfl, rfl, -⟩ := h
    rcases items with _ | ⟨_, _ | _⟩ <;> rfl
  | null | bool _ | number _ | string _ | map _ | color _ | custom .. => rfl

theorem map_toList_itemsCss (outer : Separator) (items : List Value) :
    (itemsCss outer items).map String.toList =
      items.map fun v => (parens (inParens outer v) v.css).toList := by
  induction items with
  | nil => rfl
  | cons v rest ih => rw [itemsCss, List.map_cons, ih, List.map_cons]

theorem toList_itemsCss (outer : Separator) (items : List Value) :
    (outer.joiner.intercalate (itemsCss outer items)).toList =
      List.intercalate outer.joiner.toList
        (items.map fun v => (parens (inParens outer v) v.css).toList) := by
  rw [String.toList_intercalate, map_toList_itemsCss]

theorem toList_css_list_comma (v w : Value) (rest : List Value) :
    (list (v :: w :: rest) .comma false).css.toList =
      List.intercalate [',', ' '] ((v :: w :: rest).map itemText) :=
  toList_itemsCss .comma (v :: w :: rest)

def pairTexts (pairs : List (Value × Value)) : List (List Char × List Char) :=
  pairs.map fun pair => (pair.1.css.toList, itemText pair.2)

theorem map_toList_pairsCss {pairs : List (Value × Value)} (h : PairsPlain pairs) :
    (pairsCss pairs).map String.toList = (pairTexts pairs).map Source.pairText := by
  induction pairs with
  | nil => rfl
  | cons pair rest ih =>
    obtain ⟨key, v⟩ := pair
    obtain ⟨-, hv, hrest⟩ := h
    rw [pairsCss, List.map_cons, ih hrest, inParensInMap_eq hv]
    simp [Source.pairText, itemText, pairTexts]

mutual

theorem written_itemText (v : Value) (h : v.IsPlain) : Written (itemText v) (expr v) := by
  match v with
  | null =>
    exact ⟨_, Source.lexes_null, Source.reads_token fun _ => rfl⟩
  | bool b =>
    refine ⟨_, Source.lexes_bool b, Source.reads_token fun _ => ?_⟩
    cases b <;> rfl
  | number n =>
    obtain ⟨k, rfl⟩ := h
    rw [itemText_of_not_inParens rfl]
    exact written_integer k
  | string text => exact ⟨_, Source.lexes_string h, Source.reads_token fun _ => rfl⟩
  | list [] separator bracketed =>
    obtain ⟨rfl, rfl, -⟩ := h
    exact Source.written_nil
  | list [v] separator bracketed =>
    obtain ⟨rfl, rfl, hv, -⟩ := h
    have := Source.written_one (written_itemText v hv)
    simpa [itemText, inParens, css, listText, itemsCss, parens, expr, exprs] using this
  | list (v :: w :: rest) separator bracketed =>
    obtain ⟨rfl, rfl, hv, hw, hrest⟩ := h
    have hall := Source.written_list
      (.cons (written_itemText v hv) (.cons (written_itemText w hw) (written_itemTexts rest hrest)))
    have ht : itemText (list (v :: w :: rest) .comma false) =
        '(' :: (List.intercalate [',', ' '] (itemText v :: itemText w :: rest.map itemText) ++
          [')']) := by
      rw [← List.map_cons, ← List.map_cons, ← toList_css_list_comma]
      simp [itemText, inParens, parens]
    rw [ht]
    exact hall
  | map pairs =>
    obtain ⟨hne, hp, -⟩ := h
    have hall := Source.written_map (written_pairTexts pairs hp) (by
      cases pairs with
      | nil => exact absurd rfl hne
      | cons => exact List.cons_ne_nil _ _)
    rw [← map_toList_pairsCss hp] at hall
    simpa [itemText, inParens, parens, css, mapText, expr] using hall
  | color _ => exact h.elim
  | custom .. => exact h.elim

theorem written_itemTexts (items : List Value) (h : AllPlain items) :
    List.Forall₂ Written (items.map itemText) (exprs items) := by
  match items with
  | [] => exact .nil
  | v :: rest => exact .cons (written_itemText v h.1) (written_itemTexts rest h.2)

theorem written_pairTexts (pairs : List (Value × Value)) (h : PairsPlain pairs) :
    List.Forall₂ (fun text pair => Written text.1 pair.1 ∧ Written text.2 pair.2)
      (pairTexts pairs) (pairExprs pairs) := by
  match pairs with
  | [] => exact .nil
  | (key, v) :: rest =>
    obtain ⟨⟨text, rfl, ht⟩, hv, hrest⟩ := h
    have hk : Written (string text).css.toList (expr (string text)) :=
      ⟨_, Source.lexes_string ht, Source.reads_token fun _ => rfl⟩
    exact .cons ⟨hk, written_itemText v hv⟩ (written_pairTexts rest hrest)

end

/-! ## The value of the expression -/

mutual

/-- A value as it comes back from its text: an empty list has no separator. -/
def reread : Value → Value
  | list [] _ bracketed => list [] .undecided bracketed
  | list (v :: rest) separator bracketed => list (reread v :: rereadItems rest) separator bracketed
  | map pairs => map (rereadPairs pairs)
  | v => v

def rereadItems : List Value → List Value
  | [] => []
  | v :: rest => reread v :: rereadItems rest

def rereadPairs : List (Value × Value) → List (Value × Value)
  | [] => []
  | (key, v) :: rest => (reread key, reread v) :: rereadPairs rest

end

section Evaluation

open Evaluation

variable (scope : Scope) (default : Expr → Traced Value)

theorem evaluateWith_integerExpr (k : Int) :
    evaluateWith scope default (integerExpr k) = pure (number (.ofInt k)) := by
  unfold integerExpr
  split
  · simp [evaluateWith, Operation.applyUnary, Number.negated, Number.Magnitude.neg, Number.ofInt,
      Number.ofMagnitude]
  · simp [evaluateWith]

theorem hasKey_string {text : String} {pairs : List (Value × Value)}
    (h : ∀ pair ∈ pairs, ∃ other, pair.1 = string other)
    (hn : Text.unquote text ∉ pairs.map fun pair => pair.1.plainText) :
    hasKey (string text) pairs = .ok false := by
  induction pairs with
  | nil => rfl
  | cons pair rest ih =>
    obtain ⟨key, v⟩ := pair
    obtain ⟨other, rfl⟩ : ∃ other, key = string other := h _ List.mem_cons_self
    simp only [List.map_cons, plainText, List.mem_cons, not_or] at hn
    have he : (Text.unquote text == Text.unquote other) = false := by simpa using hn.1
    have hr := ih (fun pair hp => h pair (List.mem_cons_of_mem _ hp)) hn.2
    rw [hasKey]
    simp only [equals, he, bind, Except.bind]
    exact hr

mutual

theorem evaluateWith_expr (v : Value) (h : v.IsPlain) :
    evaluateWith scope default v.expr = pure v.reread := by
  match v with
  | null | bool _ | string _ => simp [expr, evaluateWith, reread]
  | number n =>
    obtain ⟨k, rfl⟩ := h
    exact evaluateWith_integerExpr scope default k
  | list [] separator bracketed =>
    obtain ⟨rfl, rfl, -⟩ := h
    simp [expr, evaluateWith, evaluateItems, reread]
  | list (v :: rest) separator bracketed =>
    obtain ⟨-, -, hv, hrest⟩ := h
    simp [expr, evaluateWith, evaluateItems, reread, evaluateWith_expr v hv,
      evaluateItems_exprs rest hrest]
  | map pairs =>
    obtain ⟨-, hp, hn⟩ := h
    have := evaluatePairs_pairExprs pairs hp [] (by simp) (by simpa using hn)
    simp [expr, evaluateWith, reread, this]
  | color _ => exact h.elim
  | custom .. => exact h.elim

theorem evaluateItems_exprs (items : List Value) (h : AllPlain items) :
    evaluateItems scope default (exprs items) = pure (rereadItems items) := by
  match items with
  | [] => rfl
  | v :: rest =>
    simp [exprs, evaluateItems, rereadItems, evaluateWith_expr v h.1,
      evaluateItems_exprs rest h.2]

theorem evaluatePairs_pairExprs (pairs : List (Value × Value)) (h : PairsPlain pairs)
    (before : List (Value × Value)) (hb : ∀ pair ∈ before, ∃ other, pair.1 = string other)
    (hn : ((before ++ pairs).map fun pair => pair.1.plainText).Nodup) :
    evaluatePairs scope default before (pairExprs pairs) = pure (before ++ rereadPairs pairs) := by
  match pairs with
  | [] => simp [pairExprs, evaluatePairs, rereadPairs]
  | (key, v) :: rest =>
    obtain ⟨⟨text, rfl, ht⟩, hv, hrest⟩ := h
    have hk : hasKey (string text) before = .ok false := by
      apply hasKey_string hb
      rw [List.map_append, List.nodup_append] at hn
      intro hm
      exact hn.2.2 _ hm _ List.mem_cons_self rfl
    have hb' : ∀ pair ∈ before ++ [(string text, v.reread)], ∃ other, pair.1 = string other := by
      intro pair hp
      rcases List.mem_append.mp hp with hp | hp
      · exact hb pair hp
      · rw [List.mem_singleton.mp hp]
        exact ⟨text, rfl⟩
    have hr := evaluatePairs_pairExprs rest hrest (before ++ [(string text, v.reread)]) hb'
      (by simpa using hn)
    have hkey : evaluateWith scope default (expr (string text)) = pure (string text) := by
      simp [expr, evaluateWith]
    simp [pairExprs, evaluatePairs, rereadPairs, hkey, hk, evaluateWith_expr v hv, hr, reread]
    rfl

end

end Evaluation

mutual

theorem same_reread (v : Value) (h : v.IsPlain) : v.reread.same v = true := by
  match v with
  | null => rfl
  | bool b => simp [reread, same]
  | number n =>
    obtain ⟨k, rfl⟩ := h
    simp [reread, same, Number.ofInt, Number.ofMagnitude, Number.Magnitude.same,
      Number.Magnitude.eq]
  | string text => simp [reread, same]
  | list [] separator bracketed => simp [reread, same, sameItems]
  | list (v :: rest) separator bracketed =>
    obtain ⟨-, -, hv, hrest⟩ := h
    simp [reread, same, sameItems, same_reread v hv, sameItems_rereadItems rest hrest]
  | map pairs => simpa [reread, same] using samePairs_rereadPairs pairs h.2.1
  | color _ => exact h.elim
  | custom .. => exact h.elim

theorem sameItems_rereadItems (items : List Value) (h : AllPlain items) :
    sameItems (rereadItems items) items = true := by
  match items with
  | [] => rfl
  | v :: rest =>
    simp [rereadItems, sameItems, same_reread v h.1, sameItems_rereadItems rest h.2]

theorem samePairs_rereadPairs (pairs : List (Value × Value)) (h : PairsPlain pairs) :
    samePairs (rereadPairs pairs) pairs = true := by
  match pairs with
  | [] => rfl
  | (key, v) :: rest =>
    obtain ⟨⟨text, rfl, -⟩, hv, hrest⟩ := h
    simp [rereadPairs, samePairs, same_reread v hv, samePairs_rereadPairs rest hrest, reread, same]

end

mutual

/-- Nothing in the value has an identity of its own, so a variable holds it as it is. -/
theorem hold_reread (count : Nat) (v : Value) (h : v.IsPlain) :
    v.reread.hold count = (v.reread, count) := by
  match v with
  | null | bool _ | string _ => rfl
  | number n =>
    obtain ⟨k, rfl⟩ := h
    rfl
  | list [] separator bracketed => rfl
  | list (v :: rest) separator bracketed =>
    obtain ⟨-, -, hv, hrest⟩ := h
    simp [reread, hold, holdItems, hold_reread count v hv, holdItems_rereadItems count rest hrest]
  | map pairs => simp [reread, hold, holdPairs_rereadPairs count pairs h.2.1]
  | color _ => exact h.elim
  | custom .. => exact h.elim

theorem holdItems_rereadItems (count : Nat) (items : List Value) (h : AllPlain items) :
    holdItems count (rereadItems items) = (rereadItems items, count) := by
  match items with
  | [] => rfl
  | v :: rest =>
    simp [rereadItems, holdItems, hold_reread count v h.1, holdItems_rereadItems count rest h.2]

theorem holdPairs_rereadPairs (count : Nat) (pairs : List (Value × Value))
    (h : PairsPlain pairs) : holdPairs count (rereadPairs pairs) = (rereadPairs pairs, count) := by
  match pairs with
  | [] => rfl
  | (key, v) :: rest =>
    obtain ⟨⟨text, rfl, -⟩, hv, hrest⟩ := h
    simp [rereadPairs, holdPairs, hold, reread, hold_reread count v hv,
      holdPairs_rereadPairs count rest hrest]

end

end SassData.Value
