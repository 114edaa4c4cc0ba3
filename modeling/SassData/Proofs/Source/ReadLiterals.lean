import SassData.Proofs.Source.ReadExpressions

/-!
# Literals of what is read

Reading makes no literal of its own: each literal of an expression that is read stands in a token of
the text, or is the null that takes the place of what made no sense, and the function of each call
is named by a token. So what holds of all tokens holds of all these leaves, in single expressions
and in the statements of a style sheet.
-/

namespace SassData

set_option autoImplicit false

/-- What an expression has from its text: literals, and names of functions that it calls. -/
inductive Leaf
  | value (v : Value)
  | function (name : String)

/-- A property of values, of which names have nothing. -/
def Leaf.OfValue (P : Value → Prop) : Leaf → Prop
  | .value v => P v
  | .function _ => True

namespace Expr

mutual

def LeavesAre (L : Leaf → Prop) : Expr → Prop
  | .literal v => L (.value v)
  | .variable _ => True
  | .binary _ left right => left.LeavesAre L ∧ right.LeavesAre L
  | .unary _ operand => operand.LeavesAre L
  | .list items _ _ => ItemLeavesAre L items
  | .map pairs => PairLeavesAre L pairs
  | .call function arguments keywords none =>
    L (.function function) ∧ ItemLeavesAre L arguments ∧ KeywordLeavesAre L keywords
  | .call function arguments keywords (some rest) =>
    L (.function function) ∧ ItemLeavesAre L arguments ∧ KeywordLeavesAre L keywords ∧
      rest.LeavesAre L

def ItemLeavesAre (L : Leaf → Prop) : List Expr → Prop
  | [] => True
  | e :: rest => e.LeavesAre L ∧ ItemLeavesAre L rest

def PairLeavesAre (L : Leaf → Prop) : List (Expr × Expr) → Prop
  | [] => True
  | (key, value) :: rest =>
    key.LeavesAre L ∧ value.LeavesAre L ∧ PairLeavesAre L rest

def KeywordLeavesAre (L : Leaf → Prop) : List (String × Expr) → Prop
  | [] => True
  | (_, e) :: rest => e.LeavesAre L ∧ KeywordLeavesAre L rest

end

variable {L : Leaf → Prop}

theorem itemLeavesAre_iff {es : List Expr} :
    ItemLeavesAre L es ↔ ∀ e ∈ es, e.LeavesAre L := by
  induction es with
  | nil => simp [ItemLeavesAre]
  | cons e rest ih => simp [ItemLeavesAre, ih]

theorem pairLeavesAre_iff {pairs : List (Expr × Expr)} :
    PairLeavesAre L pairs ↔ ∀ pair ∈ pairs, pair.1.LeavesAre L ∧ pair.2.LeavesAre L := by
  induction pairs with
  | nil => simp [PairLeavesAre]
  | cons pair rest ih => simp [PairLeavesAre, ih, and_assoc]

theorem keywordLeavesAre_iff {keywords : List (String × Expr)} :
    KeywordLeavesAre L keywords ↔ ∀ keyword ∈ keywords, keyword.2.LeavesAre L := by
  induction keywords with
  | nil => simp [KeywordLeavesAre]
  | cons keyword rest ih => simp [KeywordLeavesAre, ih]

theorem leavesAre_call_iff {function : String} {arguments : List Expr}
    {keywords : List (String × Expr)} {rest : Option Expr} :
    (call function arguments keywords rest).LeavesAre L ↔
      L (.function function) ∧ (∀ e ∈ arguments, e.LeavesAre L) ∧
        (∀ keyword ∈ keywords, keyword.2.LeavesAre L) ∧
          ∀ e, rest = some e → e.LeavesAre L := by
  cases rest <;> simp [LeavesAre, itemLeavesAre_iff, keywordLeavesAre_iff]

end Expr

def Statement.LeavesAre (L : Leaf → Prop) (statement : Statement) : Prop :=
  ∀ e ∈ statement.exprs, e.LeavesAre L

def Expr.LiteralsAre (P : Value → Prop) (e : Expr) : Prop := e.LeavesAre (Leaf.OfValue P)

def Statement.LiteralsAre (P : Value → Prop) (statement : Statement) : Prop :=
  statement.LeavesAre (Leaf.OfValue P)

namespace Source

structure OfLeaves (L : Leaf → Prop) : Prop where
  null : L (.value .null)
  value : ∀ {t v}, IsToken t → t.Denotes v → L (.value v)
  function : ∀ {name}, IsToken (.call name) → L (.function name)

/-- A property of everything that a token of some text denotes, and of null. -/
structure OfTokens (P : Value → Prop) : Prop where
  null : P .null
  token : ∀ {t v}, IsToken t → t.Denotes v → P v

theorem OfTokens.ofLeaves {P : Value → Prop} (hP : OfTokens P) : OfLeaves (Leaf.OfValue P) :=
  ⟨hP.null, hP.token, fun _ => trivial⟩

def leafDemand (L : Leaf → Prop) : Demand :=
  ⟨Expr.LeavesAre L, fun function => L (.function function), fun _ => True⟩

variable {L : Leaf → Prop}

theorem isClosed_leafDemand (h : L (.value .null)) : (leafDemand L).IsClosed where
  null := h
  name _ := trivial
  unary h := h
  binary hl hr := ⟨hl, hr⟩
  list h := Expr.itemLeavesAre_iff.mpr h
  brackets h := h
  map h := Expr.pairLeavesAre_iff.mpr h
  call hf ha hk hs := Expr.leavesAre_call_iff.mpr ⟨hf, ha, hk, hs⟩

theorem OfLeaves.isMet (hL : OfLeaves L) : (leafDemand L).IsMet where
  closed := isClosed_leafDemand hL.null
  token {t} ht := by
    refine ⟨fun v hv => hL.value ht hv, ?_, fun _ _ => trivial⟩
    rintro name rfl
    exact hL.function ht

theorem leavesAre_of_readExpr (hL : OfLeaves L) {text : String} {e : Expr}
    (h : readExpr text = .ok e) : e.LeavesAre L := hL.isMet.readExpr h

theorem leavesAre_of_readSheet (hL : OfLeaves L) {text : String} {statements : List Statement}
    (h : readSheet text = .ok statements) : ∀ statement ∈ statements, statement.LeavesAre L :=
  fun statement hm => (hL.isMet.readSheet h statement hm).exprs

/-- The text is read as the expression, or as a style sheet with the expression in a statement. -/
def Occurs (e : Expr) (text : String) : Prop :=
  readExpr text = .ok e ∨
    ∃ statements, readSheet text = .ok statements ∧ ∃ statement ∈ statements, e ∈ statement.exprs

theorem leavesAre_of_occurs (hL : OfLeaves L) {text : String} {e : Expr}
    (h : Occurs e text) : e.LeavesAre L := by
  rcases h with h | ⟨statements, h, statement, hm, he⟩
  · exact leavesAre_of_readExpr hL h
  · exact leavesAre_of_readSheet hL h statement hm e he

end Source

end SassData
