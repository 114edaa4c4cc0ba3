import SassData.Proofs.Source.LexedTexts
import SassData.Proofs.Source.TokenReading

/-!
# Formulas

Trees of integers, variables and operators, written with as few parentheses as the levels of the
operators allow: a left operand may bind as tightly as its operator, a right operand has to bind
tighter, and the operand of a unary operator is no binary one. Such a text is read back as the tree
it was written from. What carries the proof is where the operand stands: an operand that binds
tightly enough is not touched by what the frames around it close.
-/

namespace SassData

set_option autoImplicit false

def UnaryOp.text : UnaryOp → String
  | .minus => "-"
  | .not => "not"

/-- A name that begins with a letter and goes on with letters, digits and hyphens. -/
structure PlainName where
  first : Char
  rest : List Char
  isAlpha_first : first.isAlpha = true
  plain_rest : ∀ c ∈ rest, (c.isAlphanum || c == '-') = true

namespace PlainName

def chars (name : PlainName) : List Char := name.first :: name.rest

def text (name : PlainName) : String := String.ofList name.chars

theorem isNameStart_first (name : PlainName) : Text.isNameStart name.first = true := by
  simp [Text.isNameStart, name.isAlpha_first]

theorem isNameChar_of_mem {name : PlainName} {c : Char} (h : c ∈ name.chars) :
    Text.isNameChar c = true := by
  rcases List.mem_cons.mp h with rfl | h
  · exact Text.isNameChar_of_isNameStart name.isNameStart_first
  · have := name.plain_rest c h
    simp only [Text.isNameChar, Bool.or_eq_true] at this ⊢
    exact this.elim (fun h => Or.inl (Or.inl h)) Or.inr

/-- There is no underscore in the name, so it has one spelling only. -/
theorem canonicalName_text (name : PlainName) : Text.canonicalName name.text = name.text := by
  have hchars : ∀ c ∈ name.chars, (if c == '_' then '-' else c) = c := by
    intro c hc
    have hne : c ≠ '_' := by
      rintro rfl
      rcases List.mem_cons.mp hc with h | h
      · have := name.isAlpha_first
        rw [← h] at this
        cases this
      · have := name.plain_rest _ h
        cases this
    simp [hne]
  rw [Text.canonicalName, text, String.toList_ofList, List.map_congr_left hchars, List.map_id']

end PlainName

inductive Formula
  | integer (n : Nat)
  | named (name : PlainName)
  | binary (op : BinaryOp) (left right : Formula)
  | unary (op : UnaryOp) (operand : Formula)

namespace Formula

def expr : Formula → Expr
  | integer n => .literal (.number (.ofInt n))
  | named name => .variable name.text
  | binary op left right => .binary op left.expr right.expr
  | unary op operand => .unary op operand.expr

def unaryLevel : Nat := 7

/-- How tightly the outermost part of a formula binds; what has no operator is never taken apart. -/
def level : Formula → Nat
  | binary op _ _ => op.level
  | unary _ _ => unaryLevel
  | integer _ | named _ => unaryLevel + 1

def enclosed (yes : Bool) (text : List Char) : List Char :=
  if yes then '(' :: (text ++ [')']) else text

/-- The text of a formula: one space around a binary operator and behind a unary one, parentheses
only where an operand binds looser than its place allows. -/
def written : Formula → List Char
  | integer n => Nat.toDigits 10 n
  | named name => '$' :: name.chars
  | binary op left right =>
    enclosed (left.level < op.level) left.written ++
      ' ' :: (op.text.toList ++ ' ' :: enclosed (right.level ≤ op.level) right.written)
  | unary op operand =>
    op.text.toList ++ ' ' :: enclosed (operand.level < unaryLevel) operand.written

theorem level_op_lt (op : BinaryOp) : op.level < unaryLevel := by
  cases op <;> decide

end Formula

namespace Source

open Formula (unaryLevel)

/-! ## The tokens of a formula -/

def binaryToken : BinaryOp → Token
  | .or => .word "or"
  | .and => .word "and"
  | .eq => .symbol .eq
  | .ne => .symbol .ne
  | .lt => .symbol .lt
  | .le => .symbol .le
  | .gt => .symbol .gt
  | .ge => .symbol .ge
  | .add => .symbol .plus
  | .sub => .symbol .minus
  | .mul => .symbol .star
  | .div => .symbol .slash
  | .mod => .symbol .percent

def unaryToken : UnaryOp → Token
  | .minus => .symbol .minus
  | .not => .word "not"

def enclosedTokens (yes : Bool) (ts : List Token) : List Token :=
  if yes then .symbol .openParen :: (ts ++ [.symbol .closeParen]) else ts

def formulaTokens : Formula → List Token
  | .integer n => [.number (.ofInt n)]
  | .named name => [.variable name.text]
  | .binary op left right =>
    enclosedTokens (left.level < op.level) (formulaTokens left) ++
      binaryToken op :: enclosedTokens (right.level ≤ op.level) (formulaTokens right)
  | .unary op operand =>
    unaryToken op :: enclosedTokens (operand.level < unaryLevel) (formulaTokens operand)

theorem lexes_slash : Lexes ['/'] [.symbol .slash] := by
  intro inBlock c y hc
  have hslash := hc.ne_of_mem (d := '/') (by simp)
  have hstar := hc.ne_of_mem (d := '*') (by simp)
  have hb : afterBlank? ('/' :: c :: y) = none := by
    unfold afterBlank?
    split
    · next he => exact absurd (List.cons.inj (List.cons.inj he).2).1 hstar
    · next he => exact absurd (List.cons.inj (List.cons.inj he).2).1 hslash
    · next he =>
      cases he
      rfl
    · rfl
  exact tokens_plainSymbol (by decide) hb rfl rfl

theorem lexes_binaryOp (op : BinaryOp) : Lexes op.text.toList [binaryToken op] := by
  cases op with
  | div => exact lexes_slash
  | _ => exact .of_token (by decide) (by decide) rfl rfl

theorem lexes_unaryOp (op : UnaryOp) : Lexes op.text.toList [unaryToken op] := by
  cases op <;> exact .of_token (by decide) (by decide) rfl rfl

theorem lexes_variable (name : PlainName) : Lexes ('$' :: name.chars) [.variable name.text] := by
  have hspan : spanName? name.chars = some (name.chars, []) := by
    have := @span_append _ name.chars (fun c hc => PlainName.isNameChar_of_mem hc) []
    rw [List.append_nil] at this
    simp only [PlainName.chars, spanName?, name.isNameStart_first, if_true] at this ⊢
    rw [this]
    simp
  have hn : number? ('$' :: name.chars) = none := rfl
  have hw : spanWord? ('$' :: name.chars) = none := rfl
  refine .of_token (by decide) (by decide) ?_ rfl
  simp [exprToken?, hn, hw, hspan, Text.isMark, PlainName.text]

theorem Lexes.enclosed {x : List Char} {ts : List Token} (h : Lexes x ts) (yes : Bool) :
    Lexes (Formula.enclosed yes x) (enclosedTokens yes ts) := by
  cases yes
  · exact h
  · exact h.parens

theorem lexes_formula (f : Formula) : Lexes f.written (formulaTokens f) := by
  induction f with
  | integer n => exact lexes_numeral n
  | named name => exact lexes_variable name
  | binary op left right hl hr =>
    exact (hl.enclosed _).spaced ((lexes_binaryOp op).spaced (hr.enclosed _))
  | unary op operand h => exact (lexes_unaryOp op).spaced (h.enclosed _)

/-- Tokens that no boundary has broken are those of the text on its own. -/
theorem Lexes.tokens_eq {x : List Char} {ts : List Token} (h : Lexes x ts) (hts : ¬ Broken ts)
    (inBlock : Bool) : tokens (.expression inBlock) x = ts := by
  have hspace : tokens (.expression inBlock) [' '] = [] := tokens_space _ []
  have hx : tokens (.expression inBlock) (x ++ [' ']) = ts := by
    rw [h inBlock ' ' [] isBoundary_space, hspace, List.append_nil]
  rcases tokens_boundary isBoundary_space inBlock x with hcut | ⟨-, hbroken⟩ | ⟨-, hopen⟩
  · have := hcut []
    rwa [hx, hspace, List.append_nil, eq_comm] at this
  · rw [hx] at hbroken
    exact absurd hbroken hts
  · have := hopen [] (by decide)
    rwa [hx, eq_comm] at this

/-! ## Reading operands -/

def Focus.operand? : Focus → Option Expr
  | .variable name => some (.variable name)
  | .operand e => some e
  | .nothing | .complete => none

namespace Reading

/-- Whether an operand of a level stays as it is between the frames and what follows. -/
def hasRoom (level : Nat) : List Frame → Bool
  | .unary _ :: _ => unaryLevel ≤ level
  | .binary _ op :: _ => op.level < level
  | _ => true

theorem closeOperators_of_hasRoom {level : Nat} {frames : List Frame} (hl : level < unaryLevel)
    (h : hasRoom level frames = true) (e : Expr) :
    closeOperators level frames e = (frames, e) := by
  unfold closeOperators
  split
  · simp only [hasRoom, decide_eq_true_eq] at h
    omega
  · simp only [hasRoom, decide_eq_true_eq] at h
    rw [if_neg (by omega)]
  · rfl

theorem hasRoom_mono {low high : Nat} (hl : low ≤ high) {frames : List Frame}
    (h : hasRoom low frames = true) : hasRoom high frames = true := by
  unfold hasRoom at h ⊢
  split <;> simp only [decide_eq_true_eq] at h ⊢ <;> omega

theorem push?_of_operand? {frames : List Frame} {focus : Focus} {fault : Option Failure}
    {e : Expr} (h : focus.operand? = some e) {t : Token} (ht : t ≠ .symbol .colon) :
    push? ⟨frames, focus, fault⟩ t = continue? ⟨frames, focus, fault⟩ e t := by
  cases focus with
  | «variable» name =>
    cases h
    simp only [push?, afterVariable?]
    split
    · exact absurd rfl ht
    · rfl
  | operand e =>
    cases h
    rfl
  | nothing => cases h
  | complete => cases h

/-- The tokens come to an operand. Whatever closes around it up to a level closes around the
expression, put in its place. -/
def Operand (level : Nat) (ts : List Token) (e : Expr) : Prop :=
  ∀ frames fault, hasRoom level frames = true → ∃ inner focus x,
    pushAll push? ⟨frames, .nothing, fault⟩ ts = some ⟨inner, focus, fault⟩ ∧
      focus.operand? = some x ∧
        ∀ low ≤ level, closeOperators low inner x = closeOperators low frames e

namespace Operand

variable {level : Nat} {ts : List Token} {e : Expr}

theorem integer (n : Nat) :
    Operand (unaryLevel + 1) [.number (.ofInt n)] (.literal (.number (.ofInt n))) := by
  intro frames fault _
  exact ⟨frames, _, _, rfl, rfl, fun _ _ => rfl⟩

theorem named (name : PlainName) :
    Operand (unaryLevel + 1) [.variable name.text] (.variable name.text) := by
  intro frames fault _
  refine ⟨frames, .variable name.text, _, ?_, rfl, fun _ _ => rfl⟩
  have hp : push? ⟨frames, .nothing, fault⟩ (.variable name.text) =
      some ⟨frames, .variable (Text.canonicalName name.text), fault⟩ := rfl
  rw [pushAll_cons, hp, name.canonicalName_text]
  rfl

theorem parens (h : Operand level ts e) (high : Nat) :
    Operand high (.symbol .openParen :: (ts ++ [.symbol .closeParen])) e := by
  intro frames fault _
  obtain ⟨inner, focus, x, hp, hx, hclose⟩ := h (.paren :: frames) fault rfl
  refine ⟨frames, .operand e, e, ?_, rfl, fun _ _ => rfl⟩
  have ho : push? ⟨frames, .nothing, fault⟩ (.symbol .openParen) =
      some ⟨.paren :: frames, .nothing, fault⟩ := rfl
  have hitem : closeItem inner x = (.paren :: frames, e) := by
    rw [closeItem, hclose 0 (Nat.zero_le level)]
    rfl
  rw [pushAll_cons, ho, Option.bind_some, pushAll_append, hp, Option.bind_some, pushAll_cons,
    push?_of_operand? hx (by simp)]
  simp [continue?, binaryOp?, hitem, closeParen?, pushAll_nil]

theorem enclosed (h : Operand level ts e) {yes : Bool} {least : Nat}
    (hy : yes = false → least ≤ level) :
    ∃ high, least ≤ high ∧ Operand high (enclosedTokens yes ts) e := by
  cases yes with
  | false => exact ⟨level, hy rfl, h⟩
  | true => exact ⟨least, Nat.le_refl least, h.parens least⟩

theorem unary (h : Operand level ts e) (hl : unaryLevel ≤ level) (op : UnaryOp) :
    Operand unaryLevel (unaryToken op :: ts) (.unary op e) := by
  intro frames fault _
  have hroom : hasRoom level (.unary op :: frames) = true := by simpa [hasRoom] using hl
  obtain ⟨inner, focus, x, hp, hx, hclose⟩ := h (.unary op :: frames) fault hroom
  refine ⟨inner, focus, x, ?_, hx, ?_⟩
  · have ho : push? ⟨frames, .nothing, fault⟩ (unaryToken op) =
        some ⟨.unary op :: frames, .nothing, fault⟩ := by
      cases op <;> rfl
    rw [pushAll_cons, ho, Option.bind_some, hp]
  · intro low hlow
    rw [hclose low (by omega), closeOperators]

theorem binary {high : Nat} {us : List Token} {g : Expr} (op : BinaryOp)
    (hl : Operand level ts e) (hlevel : op.level ≤ level)
    (hr : Operand high us g) (hhigh : op.level < high) :
    Operand op.level (ts ++ binaryToken op :: us) (.binary op e g) := by
  intro frames fault hroom
  obtain ⟨inner, focus, x, hp, hx, hclose⟩ := hl frames fault (hasRoom_mono hlevel hroom)
  have hright : hasRoom high (.binary e op :: frames) = true := by simpa [hasRoom] using hhigh
  obtain ⟨inner', focus', x', hp', hx', hclose'⟩ := hr (.binary e op :: frames) fault hright
  refine ⟨inner', focus', x', ?_, hx', ?_⟩
  · have hleft : closeOperators op.level inner x = (frames, e) := by
      rw [hclose op.level hlevel]
      exact closeOperators_of_hasRoom (Formula.level_op_lt op) hroom e
    have hop : binaryOp? (binaryToken op) = some op := by cases op <;> rfl
    have hne : binaryToken op ≠ .symbol .colon := by cases op <;> simp [binaryToken]
    rw [pushAll_append, hp, Option.bind_some, pushAll_cons, push?_of_operand? hx hne]
    simp only [continue?, hop, hleft, Option.bind_some]
    exact hp'
  · intro low hlow
    rw [hclose' low (by omega), closeOperators, if_pos hlow]

theorem exists_finish? (h : Operand level ts e) :
    ∃ r, pushAll push? .start ts = some r ∧ r.finish? = some e ∧ r.fault = none := by
  obtain ⟨inner, focus, x, hp, hx, hclose⟩ := h [] none rfl
  have hitem : closeItem inner x = ([], e) := by
    rw [closeItem, hclose 0 (Nat.zero_le level)]
    rfl
  refine ⟨⟨inner, focus, none⟩, hp, ?_, rfl⟩
  cases focus with
  | «variable» name =>
    cases hx
    simp [finish?, hitem, closeCommas]
  | operand x =>
    cases hx
    exact finish?_of_closeItem hitem rfl
  | nothing => cases hx
  | complete => cases hx

end Operand

theorem operand_formula (f : Formula) : Operand f.level (formulaTokens f) f.expr := by
  induction f with
  | integer n => exact .integer n
  | named name => exact .named name
  | binary op left right hl hr =>
    have hleft : decide (left.level < op.level) = false → op.level ≤ left.level := by simp
    have hright : decide (right.level ≤ op.level) = false → op.level < right.level := by simp
    obtain ⟨level, hlevel, hl⟩ := hl.enclosed hleft
    obtain ⟨high, hhigh, hr⟩ := hr.enclosed hright
    exact .binary op hl hlevel hr hhigh
  | unary op operand h =>
    have hoperand : decide (operand.level < unaryLevel) = false → unaryLevel ≤ operand.level := by
      simp
    obtain ⟨level, hlevel, h⟩ := h.enclosed hoperand
    exact .unary h hlevel op

end Reading

/-- A formula is read back from its text: every operator takes the operands that its level and the
grouping to the left give it, whatever the tree. -/
theorem readExpr_written (f : Formula) : readExpr (String.ofList f.written) = .ok f.expr := by
  obtain ⟨r, hr, hf, hn⟩ := (Reading.operand_formula f).exists_finish?
  have hts : ¬ Broken (formulaTokens f) := by
    intro hb
    rw [Reading.pushAll_broken hb] at hr
    cases hr
  rw [readExpr_eq_ok_iff, String.toList_ofList, (lexes_formula f).tokens_eq hts]
  exact ⟨r, hr, hf, hn⟩

example : String.ofList (Formula.written (.binary .mul
    (.unary .minus (.binary .sub (.integer 1) (.integer 2)))
    (.binary .mod (.named ⟨'a', ['-', '1'], by decide, by simp⟩) (.integer 3)))) =
      "- (1 - 2) * ($a-1 % 3)" := by
  decide

end Source

end SassData
