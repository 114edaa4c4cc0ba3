import SassData.Proofs.Source.LexedTexts
import SassData.Proofs.Source.TokenReading

/-!
# Texts that are read as expressions

A text that is cut into tokens in front of a boundary and whose tokens are read as an operand,
whatever is open around it. Lists in parentheses and maps are such texts when their items are; the
items of a list are collected in the frame below them, and so are the pairs of a map.
-/

namespace SassData.Source

set_option autoImplicit false

open Reading (closeItem isFloor)

/-- The tokens begin an operand that closes to the expression above any floor. -/
def Reads (ts : List Token) (e : Expr) : Prop :=
  ∀ frames, isFloor frames = true → ∃ inner operand,
    pushAll Reading.push? ⟨frames, .nothing, none⟩ ts = some ⟨inner, .operand operand, none⟩ ∧
      closeItem inner operand = (frames, e)

/-- The tokens are an operand that is complete with its last token, whatever is open around it. -/
def Stands (ts : List Token) (e : Expr) : Prop :=
  ∀ frames, pushAll Reading.push? ⟨frames, .nothing, none⟩ ts = some ⟨frames, .operand e, none⟩

theorem Stands.reads {ts : List Token} {e : Expr} (h : Stands ts e) : Reads ts e :=
  fun frames hf => ⟨frames, e, h frames, Reading.closeItem_floor hf e⟩

/-- The text is read as the expression in front of any boundary. -/
def Written (text : List Char) (e : Expr) : Prop := ∃ ts, Lexes text ts ∧ Reads ts e

/-! ## Single operands -/

theorem stands_token {t : Token} {e : Expr}
    (h : ∀ frames, Reading.push? ⟨frames, .nothing, none⟩ t = some ⟨frames, .operand e, none⟩) :
    Stands [t] e := by
  intro frames
  rw [pushAll_cons, h]
  rfl

theorem reads_token {t : Token} {e : Expr}
    (h : ∀ frames, Reading.push? ⟨frames, .nothing, none⟩ t = some ⟨frames, .operand e, none⟩) :
    Reads [t] e :=
  (stands_token h).reads

theorem reads_negative (n : Number) :
    Reads [.symbol .minus, .number n] (.unary .minus (.literal (.number n))) := by
  intro frames hf
  refine ⟨.unary .minus :: frames, .literal (.number n), rfl, ?_⟩
  have := Reading.closeItem_floor hf (.unary .minus (.literal (.number n)))
  simpa [closeItem, Reading.closeOperators] using this

/-! ## Lists -/

def opened (before : List Expr) (frames : List Frame) : List Frame :=
  match before with
  | [] => frames
  | before => .commas before :: frames

def IsListPlace (frames : List Frame) : Prop :=
  frames = [] ∨ ∃ below, frames = .paren :: below ∨ frames = .bracket :: below

theorem isFloor_opened (before : List Expr) {frames : List Frame} (h : IsListPlace frames) :
    isFloor (opened before frames) = true := by
  cases before with
  | cons e es => rfl
  | nil =>
    rcases h with rfl | ⟨below, rfl | rfl⟩ <;> rfl

section Push

variable {inner frames : List Frame} {operand item : Expr} {fault : Option Failure}

/-- After an operand a comma, a colon or a closing parenthesis or bracket takes the item that is
closed. -/
theorem push?_comma (h : closeItem inner operand = (frames, item)) :
    Reading.push? ⟨inner, .operand operand, fault⟩ (.symbol .comma) =
      Reading.comma? ⟨inner, .operand operand, fault⟩ frames item := by
  simp [Reading.push?, Reading.continue?, Reading.binaryOp?, h]

theorem push?_colon (h : closeItem inner operand = (frames, item)) :
    Reading.push? ⟨inner, .operand operand, fault⟩ (.symbol .colon) =
      Reading.colon? ⟨inner, .operand operand, fault⟩ frames item := by
  simp [Reading.push?, Reading.continue?, Reading.binaryOp?, h]

theorem push?_closeParen (h : closeItem inner operand = (frames, item)) :
    Reading.push? ⟨inner, .operand operand, fault⟩ (.symbol .closeParen) =
      Reading.closeParen? ⟨inner, .operand operand, fault⟩ frames item := by
  simp [Reading.push?, Reading.continue?, Reading.binaryOp?, h]

theorem push?_closeBracket {e : Expr} {below : List Frame}
    (h : closeItem inner operand = (frames, item))
    (hc : Reading.closeCommas frames item = (.bracket :: below, e)) :
    Reading.push? ⟨inner, .operand operand, fault⟩ (.symbol .closeBracket) =
      some ⟨below, .operand (Reading.inBrackets e), fault⟩ := by
  simp [Reading.push?, Reading.continue?, Reading.binaryOp?, h, hc]

end Push

theorem comma?_opened {r : Reading} {frames : List Frame} (h : IsListPlace frames)
    (before : List Expr) (e : Expr) :
    r.comma? (opened before frames) e = some ⟨opened (e :: before) frames, .nothing, r.fault⟩ := by
  cases before with
  | cons e es => rfl
  | nil =>
    rcases h with rfl | ⟨below, rfl | rfl⟩ <;> rfl

theorem reads_items {tss : List (List Token)} {es : List Expr} (h : List.Forall₂ Reads tss es)
    (hne : es ≠ []) {frames : List Frame} (hf : IsListPlace frames) (before : List Expr) :
    ∃ inner operand last earlier,
      pushAll Reading.push? ⟨opened before frames, .nothing, none⟩
          (List.intercalate [.symbol .comma] tss) = some ⟨inner, .operand operand, none⟩ ∧
        closeItem inner operand = (opened earlier frames, last) ∧
        last :: earlier = es.reverse ++ before := by
  induction h generalizing before with
  | nil => exact absurd rfl hne
  | @cons ts e tss es hr hrest ih =>
    obtain ⟨inner, operand, hp, hc⟩ := hr _ (isFloor_opened before hf)
    cases hrest with
    | nil => exact ⟨inner, operand, e, before, by simpa using hp, hc, rfl⟩
    | cons hr' hrest' =>
      obtain ⟨inner', operand', last, earlier, hp', hc', hl⟩ :=
        ih (List.cons_ne_nil _ _) (e :: before)
      refine ⟨inner', operand', last, earlier, ?_, hc', by simpa using hl⟩
      rw [List.intercalate_cons_cons, pushAll_append, pushAll_append, hp, Option.bind_some,
        pushAll_cons, push?_comma hc, comma?_opened hf, Option.bind_some, pushAll_nil,
        Option.bind_some, hp']

theorem stands_nil :
    Stands [.symbol .openParen, .symbol .closeParen] (.list [] .undecided false) :=
  fun _ => rfl

section Enclosed

variable {ts us : List Token} {tss : List (List Token)} {e f : Expr} {es : List Expr}

theorem stands_parens (h : Reads ts e) :
    Stands (.symbol .openParen :: (ts ++ [.symbol .closeParen])) e := by
  intro frames
  obtain ⟨inner, operand, hr, hc⟩ := h (.paren :: frames) rfl
  have ho : Reading.push? ⟨frames, .nothing, none⟩ (.symbol .openParen) =
      some ⟨.paren :: frames, .nothing, none⟩ := rfl
  rw [pushAll_cons, ho, Option.bind_some, pushAll_append, hr, Option.bind_some, pushAll_cons,
    push?_closeParen hc]
  rfl

theorem stands_brackets (h : Reads ts e) :
    Stands (.symbol .openBracket :: (ts ++ [.symbol .closeBracket])) (Reading.inBrackets e) := by
  intro frames
  obtain ⟨inner, operand, hr, hc⟩ := h (.bracket :: frames) rfl
  have ho : Reading.push? ⟨frames, .nothing, none⟩ (.symbol .openBracket) =
      some ⟨.bracket :: frames, .nothing, none⟩ := rfl
  rw [pushAll_cons, ho, Option.bind_some, pushAll_append, hr, Option.bind_some, pushAll_cons,
    push?_closeBracket hc rfl]
  rfl

theorem stands_one (h : Reads ts e) :
    Stands (.symbol .openParen :: (ts ++ [.symbol .comma] ++ [.symbol .closeParen]))
      (.list [e] .comma false) := by
  intro frames
  have hp : IsListPlace (.paren :: frames) := Or.inr ⟨frames, Or.inl rfl⟩
  obtain ⟨inner, operand, hr, hc⟩ := h _ (isFloor_opened [] hp)
  have ho : Reading.push? ⟨frames, .nothing, none⟩ (.symbol .openParen) =
      some ⟨opened [] (.paren :: frames), .nothing, none⟩ := rfl
  rw [pushAll_cons, ho, Option.bind_some, pushAll_append, pushAll_append, hr, Option.bind_some,
    pushAll_cons, push?_comma hc, comma?_opened hp]
  rfl

theorem stands_one_brackets (h : Reads ts e) :
    Stands (.symbol .openBracket :: (ts ++ [.symbol .comma] ++ [.symbol .closeBracket]))
      (.list [e] .comma true) := by
  intro frames
  have hp : IsListPlace (.bracket :: frames) := Or.inr ⟨frames, Or.inr rfl⟩
  obtain ⟨inner, operand, hr, hc⟩ := h _ (isFloor_opened [] hp)
  have ho : Reading.push? ⟨frames, .nothing, none⟩ (.symbol .openBracket) =
      some ⟨opened [] (.bracket :: frames), .nothing, none⟩ := rfl
  rw [pushAll_cons, ho, Option.bind_some, pushAll_append, pushAll_append, hr, Option.bind_some,
    pushAll_cons, push?_comma hc, comma?_opened hp]
  rfl

theorem reads_several {frames : List Frame}
    (h : List.Forall₂ Reads (ts :: us :: tss) (e :: f :: es)) (hf : IsListPlace frames) :
    ∃ inner operand last g earlier,
      pushAll Reading.push? ⟨frames, .nothing, none⟩
          (List.intercalate [.symbol .comma] (ts :: us :: tss)) =
        some ⟨inner, .operand operand, none⟩ ∧
        closeItem inner operand = (.commas (g :: earlier) :: frames, last) ∧
        (last :: g :: earlier).reverse = e :: f :: es := by
  obtain ⟨inner, operand, last, earlier, hr, hc, hl⟩ :=
    reads_items h (List.cons_ne_nil _ _) hf []
  cases earlier with
  | nil =>
    have := congrArg List.length hl
    simp at this
  | cons g earlier =>
    refine ⟨inner, operand, last, g, earlier, hr, hc, ?_⟩
    rw [hl]
    simp

theorem stands_list (h : List.Forall₂ Reads (ts :: us :: tss) (e :: f :: es)) :
    Stands (.symbol .openParen ::
        (List.intercalate [.symbol .comma] (ts :: us :: tss) ++ [.symbol .closeParen]))
      (.list (e :: f :: es) .comma false) := by
  intro frames
  obtain ⟨inner, operand, last, g, earlier, hr, hc, he⟩ :=
    reads_several h (Or.inr ⟨frames, Or.inl rfl⟩)
  have ho : Reading.push? ⟨frames, .nothing, none⟩ (.symbol .openParen) =
      some ⟨.paren :: frames, .nothing, none⟩ := rfl
  rw [pushAll_cons, ho, Option.bind_some, pushAll_append, hr, Option.bind_some, pushAll_cons,
    push?_closeParen hc]
  simp only [Reading.closeParen?, Option.bind_some, pushAll_nil, he]

theorem stands_list_brackets (h : List.Forall₂ Reads (ts :: us :: tss) (e :: f :: es)) :
    Stands (.symbol .openBracket ::
        (List.intercalate [.symbol .comma] (ts :: us :: tss) ++ [.symbol .closeBracket]))
      (.list (e :: f :: es) .comma true) := by
  intro frames
  obtain ⟨inner, operand, last, g, earlier, hr, hc, he⟩ :=
    reads_several h (Or.inr ⟨frames, Or.inr rfl⟩)
  have ho : Reading.push? ⟨frames, .nothing, none⟩ (.symbol .openBracket) =
      some ⟨.bracket :: frames, .nothing, none⟩ := rfl
  rw [pushAll_cons, ho, Option.bind_some, pushAll_append, hr, Option.bind_some, pushAll_cons,
    push?_closeBracket hc rfl, he]
  rfl

end Enclosed

/-! ## Maps -/

def openedMap (before : List (Expr × Expr)) (frames : List Frame) : List Frame :=
  match before with
  | [] => .paren :: frames
  | before => .mapKey before :: frames

theorem isFloor_openedMap (before : List (Expr × Expr)) (frames : List Frame) :
    isFloor (openedMap before frames) = true := by
  cases before <;> rfl

theorem colon?_openedMap {r : Reading} (before : List (Expr × Expr)) (frames : List Frame)
    (key : Expr) :
    r.colon? (openedMap before frames) key =
      some ⟨.mapValue before key :: frames, .nothing, r.fault⟩ := by
  cases before <;> rfl

def pairTokens (pair : List Token × List Token) : List Token :=
  pair.1 ++ .symbol .colon :: pair.2

theorem reads_pairs {tss : List (List Token × List Token)} {pairs : List (Expr × Expr)}
    (h : List.Forall₂ (fun ts pair => Reads ts.1 pair.1 ∧ Reads ts.2 pair.2) tss pairs)
    (hne : pairs ≠ []) (frames : List Frame) (before : List (Expr × Expr)) :
    ∃ inner operand key last earlier,
      pushAll Reading.push? ⟨openedMap before frames, .nothing, none⟩
          (List.intercalate [.symbol .comma] (tss.map pairTokens)) =
        some ⟨inner, .operand operand, none⟩ ∧
        closeItem inner operand = (.mapValue earlier key :: frames, last) ∧
        (key, last) :: earlier = pairs.reverse ++ before := by
  induction h generalizing before with
  | nil => exact absurd rfl hne
  | @cons ts pair tss pairs hr hrest ih =>
    obtain ⟨inner, operand, hp, hc⟩ := hr.1 _ (isFloor_openedMap before frames)
    obtain ⟨inner', operand', hp', hc'⟩ := hr.2 (.mapValue before pair.1 :: frames) rfl
    have hpair : pushAll Reading.push? ⟨openedMap before frames, .nothing, none⟩
        (pairTokens ts) = some ⟨inner', .operand operand', none⟩ := by
      rw [pairTokens, pushAll_append, hp, Option.bind_some, pushAll_cons, push?_colon hc,
        colon?_openedMap, Option.bind_some, hp']
    cases hrest with
    | nil => exact ⟨inner', operand', pair.1, pair.2, before, by simpa using hpair, hc', rfl⟩
    | cons hr' hrest' =>
      obtain ⟨inner'', operand'', key, last, earlier, hp'', hc'', hl⟩ :=
        ih (List.cons_ne_nil _ _) (pair :: before)
      refine ⟨inner'', operand'', key, last, earlier, ?_, hc'', by simpa using hl⟩
      have hcomma : Reading.comma? ⟨inner', .operand operand', none⟩
          (.mapValue before pair.1 :: frames) pair.2 =
            some ⟨openedMap (pair :: before) frames, .nothing, none⟩ := rfl
      rw [List.map_cons, List.map_cons, List.intercalate_cons_cons, pushAll_append,
        pushAll_append, hpair, Option.bind_some, pushAll_cons, push?_comma hc', hcomma,
        Option.bind_some, pushAll_nil, Option.bind_some, ← List.map_cons, hp'']

theorem stands_map {tss : List (List Token × List Token)} {pairs : List (Expr × Expr)}
    (h : List.Forall₂ (fun ts pair => Reads ts.1 pair.1 ∧ Reads ts.2 pair.2) tss pairs)
    (hne : pairs ≠ []) :
    Stands (.symbol .openParen ::
        (List.intercalate [.symbol .comma] (tss.map pairTokens) ++ [.symbol .closeParen]))
      (.map pairs) := by
  intro frames
  obtain ⟨inner, operand, key, last, earlier, hr, hc, hl⟩ := reads_pairs h hne frames []
  have ho : Reading.push? ⟨frames, .nothing, none⟩ (.symbol .openParen) =
      some ⟨openedMap [] frames, .nothing, none⟩ := rfl
  have he : ((key, last) :: earlier).reverse = pairs := by
    rw [hl]
    simp
  rw [pushAll_cons, ho, Option.bind_some, pushAll_append, hr, Option.bind_some, pushAll_cons,
    push?_closeParen hc]
  simp only [Reading.closeParen?, Option.bind_some, pushAll_nil, he]

/-! ## Texts -/

theorem Lexes.items {texts : List (List Char)} {tss : List (List Token)}
    (h : List.Forall₂ Lexes texts tss) (hne : texts ≠ []) :
    Lexes (List.intercalate [',', ' '] texts) (List.intercalate [.symbol .comma] tss) := by
  induction h with
  | nil => exact absurd rfl hne
  | cons hx hrest ih =>
    cases hrest with
    | nil => simpa using hx
    | cons hx' hrest' =>
      have := hx.comma (ih (List.cons_ne_nil _ _))
      simpa [List.intercalate_cons_cons] using this

theorem exists_tokens {texts : List (List Char)} {es : List Expr}
    (h : List.Forall₂ Written texts es) :
    ∃ tss, List.Forall₂ Lexes texts tss ∧ List.Forall₂ Reads tss es := by
  induction h with
  | nil => exact ⟨[], .nil, .nil⟩
  | cons hw _ ih =>
    obtain ⟨ts, hl, hr⟩ := hw
    obtain ⟨tss, hls, hrs⟩ := ih
    exact ⟨ts :: tss, .cons hl hls, .cons hr hrs⟩

def pairText (pair : List Char × List Char) : List Char := pair.1 ++ ':' :: ' ' :: pair.2

theorem exists_pairTokens {texts : List (List Char × List Char)} {pairs : List (Expr × Expr)}
    (h : List.Forall₂ (fun text pair => Written text.1 pair.1 ∧ Written text.2 pair.2)
      texts pairs) :
    ∃ tss : List (List Token × List Token),
      List.Forall₂ Lexes (texts.map pairText) (tss.map pairTokens) ∧
        List.Forall₂ (fun ts pair => Reads ts.1 pair.1 ∧ Reads ts.2 pair.2) tss pairs := by
  induction h with
  | nil => exact ⟨[], .nil, .nil⟩
  | cons hw _ ih =>
    obtain ⟨⟨ks, hkl, hkr⟩, vs, hvl, hvr⟩ := hw
    obtain ⟨tss, hls, hrs⟩ := ih
    exact ⟨(ks, vs) :: tss, .cons (hkl.colon hvl) hls, .cons ⟨hkr, hvr⟩ hrs⟩

theorem Written.parens {text : List Char} {e : Expr} (h : Written text e) :
    Written ('(' :: (text ++ [')'])) e := by
  obtain ⟨ts, hl, hr⟩ := h
  exact ⟨_, hl.parens, (stands_parens hr).reads⟩

theorem written_nil : Written ['(', ')'] (.list [] .undecided false) :=
  ⟨_, .empty, stands_nil.reads⟩

theorem written_one {text : List Char} {e : Expr} (h : Written text e) :
    Written ('(' :: (text ++ [','] ++ [')'])) (.list [e] .comma false) := by
  obtain ⟨ts, hl, hr⟩ := h
  exact ⟨_, hl.lastComma.parens, (stands_one hr).reads⟩

theorem written_list {texts : List (List Char)} {e f : Expr} {es : List Expr}
    (h : List.Forall₂ Written texts (e :: f :: es)) :
    Written ('(' :: (List.intercalate [',', ' '] texts ++ [')']))
      (.list (e :: f :: es) .comma false) := by
  obtain ⟨tss, hl, hr⟩ := exists_tokens h
  cases hl with
  | nil => cases hr
  | cons hx hl =>
    cases hl with
    | nil =>
      cases hr with
      | cons _ hr => cases hr
    | cons hy hl =>
      have hitems := Lexes.items (.cons hx (.cons hy hl)) (List.cons_ne_nil _ _)
      exact ⟨_, hitems.parens, (stands_list hr).reads⟩

theorem written_map {texts : List (List Char × List Char)} {pairs : List (Expr × Expr)}
    (h : List.Forall₂ (fun text pair => Written text.1 pair.1 ∧ Written text.2 pair.2)
      texts pairs) (hne : pairs ≠ []) :
    Written ('(' :: (List.intercalate [',', ' '] (texts.map pairText) ++ [')'])) (.map pairs) := by
  obtain ⟨tss, hl, hr⟩ := exists_pairTokens h
  have hn : texts.map pairText ≠ [] := by
    cases h with
    | nil => exact absurd rfl hne
    | cons => exact List.cons_ne_nil _ _
  exact ⟨_, (Lexes.items hl hn).parens, (stands_map hr hne).reads⟩

end SassData.Source
