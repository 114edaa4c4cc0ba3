import SassData.Engine.Literal
import SassData.Proofs.Source.ArgumentFrames
import SassData.Proofs.Source.LexedTexts

/-!
# Reading a text as an argument of the probe

When a text in parentheses is an expression, the style sheet that calls the probe with it can only
be read as one statement, whose call has that expression as its argument, or several arguments. A
text whose end is in a comment makes no style sheet.
-/

namespace SassData.Literal

set_option autoImplicit false

open Source

theorem tokens_sheetOf (text : String) :
    tokens .statement (sheetOf text).toList =
      .variable "_" :: .symbol .colon :: .call "___" ::
        tokens (.expression false) ('(' :: text.toList ++ [')', ')', ';']) := by
  have hv (y : List Char) : tokens .statement ('$' :: '_' :: ':' :: y) =
      .variable "_" :: tokens (.expression false) (':' :: y) :=
    @tokens_of_token .statement _ _ _ rfl rfl
  have hcall (y : List Char) : tokens (.expression false) ('_' :: '_' :: '_' :: '(' :: y) =
      .call "___" :: tokens (.expression false) y :=
    tokens_of_exprToken rfl rfl rfl
  have ht : (sheetOf text).toList = '$' :: '_' :: ':' :: ' ' :: '_' :: '_' :: '_' :: '(' ::
      ('(' :: text.toList ++ [')', ')', ';']) := by
    simp [sheetOf]
  rw [ht, hv, tokens_colon, tokens_space, hcall]

def probing (reading : Reading) : SheetReading := ⟨[], .inside (.assignment "-") reading, none⟩

theorem pushAll_probing {ts : List Token} {r r' : Reading}
    (h : pushAll Reading.push? r ts = some r') :
    pushAll SheetReading.push? (probing r) ts = some (probing r') :=
  SheetReading.pushAll_inside h

theorem pushAll_sheetOf (text : String) :
    pushAll SheetReading.push? .start (tokens .statement (sheetOf text).toList) =
      pushAll SheetReading.push? (probing ⟨[.argument "___" []], .nothing, none⟩)
        (tokens (.expression false) ('(' :: text.toList ++ [')', ')', ';'])) := by
  have hn : Text.canonicalName "_" = "-" := by decide
  have hs : SheetReading.push? .start (.variable "_") =
      some ⟨[], .named (.assignment "-"), none⟩ := by
    simp [SheetReading.push?, SheetReading.start, hn]
  rw [tokens_sheetOf, pushAll_cons, hs]
  rfl

theorem statements_of_readSheet {text : String} {e : Expr} {statements : List Statement}
    (he : readExpr ("(" ++ text ++ ")") = .ok e)
    (hs : readSheet (sheetOf text) = .ok statements) :
    statements = [.assign "-" (.call "___" [e] [] none) []] ∨
      ∃ a b es, statements = [.assign "-" (.call "___" (a :: b :: es) [] none) []] := by
  obtain ⟨r, hr, hfinish, hfault⟩ := readExpr_eq_ok_iff.mp he
  obtain ⟨s, hsheet, hstatements, -⟩ := readSheet_eq_ok_iff.mp hs
  have hx : ("(" ++ text ++ ")").toList = '(' :: text.toList ++ [')'] := by simp
  rw [hx] at hr
  rw [pushAll_sheetOf] at hsheet
  have hbelow : Framed "___" .start ⟨[.argument "___" []], .nothing, none⟩ :=
    .intro [] .first .nothing none
  rcases tokens_boundary isBoundary_closeParen false ('(' :: text.toList) with
    hcut | ⟨-, hbroken⟩ | ⟨-, hopen⟩
  · have hend : tokens (.expression false) [')'] = [.symbol .closeParen] := tokens_closeParen _ _
    have hends : tokens (.expression false) [')', ')', ';'] =
        [.symbol .closeParen, .symbol .closeParen, .symbol .semicolon] := by
      rw [tokens_closeParen, tokens_closeParen, tokens_semicolon]
      rfl
    rw [hcut [], hend] at hr
    rw [hcut [')', ';'], hends] at hsheet
    obtain ⟨operand, hoperand⟩ : ∃ operand, r.focus = .operand operand := by
      rw [pushAll_append, Option.bind_eq_some_iff] at hr
      obtain ⟨r₀, -, hlast⟩ := hr
      rw [pushAll_cons, Option.bind_eq_some_iff] at hlast
      obtain ⟨r₁, hp, hr₁⟩ := hlast
      cases hr₁
      exact Reading.focus_of_push?_closeParen hp
    obtain ⟨r', hr', hframed⟩ := pushAll_framed hbelow hr
    have happend (ts : List Token) : ts ++ [.symbol .closeParen, .symbol .closeParen,
        .symbol .semicolon] = (ts ++ [.symbol .closeParen]) ++
          [.symbol .closeParen, .symbol .semicolon] := by
      simp
    rw [happend, pushAll_append, pushAll_probing hr', Option.bind_some, pushAll_cons,
      Option.bind_eq_some_iff] at hsheet
    obtain ⟨s₁, hs₁, hsemicolon⟩ := hsheet
    rw [probing, SheetReading.push?_inside rfl, Option.map_eq_some_iff] at hs₁
    obtain ⟨r'', hparen, rfl⟩ := hs₁
    have hlast {call : Expr} (hcall : r'' = ⟨[], .operand call, r.fault⟩) :
        statements = [.assign "-" call []] := by
      have hfinish : r''.finish? = some call := by
        rw [hcall]
        rfl
      rw [pushAll_cons, SheetReading.push?_semicolon hfinish, Option.bind_some,
        pushAll_nil] at hsemicolon
      cases hsemicolon
      cases hstatements
      rfl
    rcases closeParen_framed hframed hoperand hfinish hparen with hone | ⟨a, b, es, hmany⟩
    · exact Or.inl (hlast hone)
    · exact Or.inr ⟨a, b, es, hlast hmany⟩
  · rw [Reading.pushAll_broken hbroken] at hr
    cases hr
  · -- The comment takes the end of the sheet along, so the sheet stops inside the call.
    rw [hopen [] (by decide)] at hr
    rw [hopen [')', ';'] (by decide)] at hsheet
    obtain ⟨r', hr', -⟩ := pushAll_framed hbelow hr
    rw [pushAll_probing hr'] at hsheet
    cases hsheet
    cases hstatements

end SassData.Literal
