import SassData.Proofs.Evaluation.UncalledFunctions
import SassData.Proofs.Literal.LiteralTexts
import SassData.Proofs.Source.ParenthesisNesting

/-!
# Expressions are taken for their value

Around a text that is an expression the sheet is one statement: the call of the probe with that
expression. Only a comment at the end of the text would take the closing parentheses along. If the
expression does not call the probe itself, it has the same value or the same failure in the sheet as
alone, and the first call of the probe is the one around it.
-/

namespace SassData.Literal

set_option autoImplicit false

open Source Evaluation

/-! ## The sheet around an expression -/

/-- A parenthesis behind a comment is no token of its own. -/
theorem not_endsInComment {x : List Char}
    (h : (tokens (.expression false) (x ++ [')'])).length ≠
      (tokens (.expression false) x).length) : ¬ EndsInComment x :=
  fun hc => h (congrArg List.length (hc.tokens_append isBoundary_closeParen (by decide) false))

theorem tokens_append_of_read {text : String} {r : Reading}
    (hr : pushAll Reading.push? .start (tokens (.expression false) text.toList) = some r)
    (hend : ¬ EndsInComment text.toList) {c : Char} (hc : IsBoundary c) (y : List Char) :
    tokens (.expression false) (text.toList ++ c :: y) =
      tokens (.expression false) text.toList ++ tokens (.expression false) (c :: y) := by
  obtain hcut | ⟨hbroken, -⟩ | ⟨hcomment, -⟩ := tokens_boundary hc false text.toList
  · exact hcut y
  · rw [Reading.pushAll_broken hbroken] at hr
    cases hr
  · exact absurd hcomment hend

theorem tokens_closing {text : String} {r : Reading}
    (hr : pushAll Reading.push? .start (tokens (.expression false) text.toList) = some r)
    (hend : ¬ EndsInComment text.toList) :
    tokens (.expression false) (text.toList ++ [')', ')', ';']) =
      tokens (.expression false) text.toList ++
        [.symbol .closeParen, .symbol .closeParen, .symbol .semicolon] := by
  rw [tokens_append_of_read hr hend isBoundary_closeParen, tokens_closeParen, tokens_closeParen,
    tokens_semicolon, tokens_nil]

theorem readSheet_sheetOf {text : String} {e : Expr} (he : readExpr text = .ok e)
    (hend : ¬ EndsInComment text.toList) :
    readSheet (sheetOf text) = .ok [.assign "-" (.call "___" [e] [] none) []] := by
  obtain ⟨r, hr, hfinish, hfault⟩ := readExpr_eq_ok_iff.mp he
  have hinside := pushAll_probing (Reading.pushAll_above (.paren [.argument "___" []]) hr)
  have hparen := Reading.push?_closeParen_above hfinish [.argument "___" []]
  have hcall : Reading.push? ⟨[.argument "___" []], .operand e, r.fault⟩ (.symbol .closeParen) =
      some ⟨[], .operand (.call "___" [e] [] none), r.fault⟩ :=
    congrArg some (closeCall_positional _ [] "___" [e])
  have hclosing : pushAll SheetReading.push? (probing (r.above [.paren, .argument "___" []]))
      [.symbol .closeParen, .symbol .closeParen, .symbol .semicolon] =
        some ⟨[.assign "-" (.call "___" [e] [] none) []], .between, r.fault⟩ := by
    rw [probing, pushAll_cons, SheetReading.push?_inside rfl, hparen, Option.map_some,
      Option.bind_some, pushAll_cons, SheetReading.push?_inside rfl, hcall]
    rfl
  rw [readSheet_eq_ok_iff]
  refine ⟨⟨[.assign "-" (.call "___" [e] [] none) []], .between, r.fault⟩, ?_, rfl, hfault⟩
  rw [pushAll_sheetOf, List.cons_append, tokens_openParen, tokens_closing hr hend, pushAll_cons]
  change pushAll _ (probing (Reading.start.above [.paren, .argument "___" []])) _ = _
  rw [pushAll_append, hinside, Option.bind_some, hclosing]

/-! ## The run of the sheet -/

theorem read_eq {text : String} {e : Expr} (he : readExpr text = .ok e)
    (hend : ¬ EndsInComment text.toList) :
    read text = match (Session.start probeRegistry).evaluate (.call "___" [e] [] none) with
      | .ok (_, trace) => .ok (firstProbed? trace)
      | .error failure => if failure.isCompileError then .ok none else .error failure := by
  have hcompile : compile (sheetOf text) probe =
      (Session.start probeRegistry).evaluate (.call "___" [e] [] none) >>= fun result =>
        .ok ⟨"", [("-", (result.1.hold 0).1)], [], result.2⟩ := by
    simp only [compile, readSheet_sheetOf he hend, ofDeclarations_probe]
    simp only [bind, Except.bind, Session.run, Session.step, List.not_mem_nil, decide_false,
      Bool.false_and, Bool.false_eq_true, if_false]
    cases (Session.start probeRegistry).evaluate (.call "___" [e] [] none) <;> rfl
  rw [read, hcompile]
  cases (Session.start probeRegistry).evaluate (.call "___" [e] [] none) <;> rfl

theorem evaluate_call_probe (e : Expr) :
    (Session.start probeRegistry).evaluate (.call "___" [e] [] none) =
      (Session.start probeRegistry).evaluate e >>= fun (v, trace) =>
        .ok (v, ⟨probeName, [v]⟩ :: trace) := by
  rw [evaluate_eq, evaluate_eq]
  simp only [evaluateWith, evaluateItems, evaluateKeywords, bind_assoc, pure_bind]
  rw [Traced.bind_apply]
  refine bind_congr fun (v, trace) => ?_
  exact call_probe _ v trace

/-! ## Expressions that do not call the probe -/

theorem sameWithout_probe :
    SameWithout probeName scope plainScope (evaluateTo scope 3) (evaluateTo plainScope 3) := by
  have h := without_probe scope plainScope 3 3
  refine ⟨rfl, h.same, h.named, ?_⟩
  intro function f hf p hp x hx
  obtain ⟨v, rfl⟩ := default_literal hf hp hx
  rw [evaluateTo_literal, evaluateTo_literal]
  exact .pure v

theorem evaluate_of_avoids {e : Expr} (h : Avoids probeName e.functions) :
    (Session.start probeRegistry).evaluate e = (Session.start []).evaluate e := by
  rw [evaluate_eq, evaluate_plain_eq, (evaluateWith_alike sameWithout_probe e h).eq]

theorem not_called_of_avoids {e : Expr} (h : Avoids probeName e.functions) {v : Value}
    {trace : List Invocation} (he : (Session.start probeRegistry).evaluate e = .ok (v, trace)) :
    ∀ i ∈ trace, i.function ≠ probeName := by
  rw [evaluate_eq] at he
  obtain ⟨new, rfl, hnew⟩ := (evaluateWith_alike sameWithout_probe e h).quiet [] v trace he
  rwa [List.append_nil]

theorem evaluateSource_eq {text : String} {e : Expr} (he : readExpr text = .ok e) :
    evaluateSource text [] =
      (Session.start []).evaluate e >>= fun (v, _) => .ok v := by
  rw [evaluateSource, he]
  rfl

/-- What a text is taken for is what its evaluation comes to. -/
theorem read_eq_evaluateSource {text : String} {e : Expr} (he : readExpr text = .ok e)
    (hend : ¬ EndsInComment text.toList) (havoids : Avoids probeName e.functions) :
    read text = match evaluateSource text [] with
      | .ok v => .ok (some v)
      | .error failure => if failure.isCompileError then .ok none else .error failure := by
  rw [read_eq he hend, evaluate_call_probe, evaluateSource_eq he, ← evaluate_of_avoids havoids]
  cases hv : (Session.start probeRegistry).evaluate e with
  | ok result =>
    obtain ⟨v, trace⟩ := result
    exact congrArg Except.ok (firstProbed?_of_not_called (not_called_of_avoids havoids hv))
  | error failure => rfl

/-- An expression that does not call the probe is taken for its value, and for no literal if it
fails in an orderly way. -/
theorem read_of_readExpr (text : String) (e : Expr) (he : readExpr text = .ok e)
    (hend : ¬ EndsInComment text.toList) (havoids : Avoids probeName e.functions) :
    (∀ v, evaluateSource text [] = .ok v → read text = .ok (some v)) ∧
      ∀ failure, evaluateSource text [] = .error failure → failure.isCompileError = true →
        read text = .ok none := by
  have hread := read_eq_evaluateSource he hend havoids
  constructor
  · intro v hv
    rw [hread, hv]
  · intro failure hv hfailure
    rw [hread, hv]
    exact if_pos hfailure

theorem read_of_readExpr_length :
    (readExpr "length(1px 2px)").isOk = true ∧
      ¬ EndsInComment "length(1px 2px)".toList ∧ Avoids probeName ["length"] ∧
      evaluateSource "length(1px 2px)" [] = .ok (.number (.ofInt 2)) ∧
      read "length(1px 2px)" = .ok (some (.number (.ofInt 2))) := by
  have hread : readExpr "length(1px 2px)" = .ok (.call "length"
      [.list [.literal (.number ⟨.int 1, ["px"], []⟩), .literal (.number ⟨.int 2, ["px"], []⟩)]
        .space false] [] none) := rfl
  have hvalue : evaluateSource "length(1px 2px)" [] = .ok (.number (.ofInt 2)) := by
    rw [evaluateSource_eq hread]
    rfl
  have hend : ¬ EndsInComment "length(1px 2px)".toList := not_endsInComment (by decide)
  have havoids : Avoids probeName ["length"] := by
    intro function hf
    rw [List.mem_singleton.mp hf]
    decide
  exact ⟨by rw [hread]; rfl, hend, havoids, hvalue,
    (read_of_readExpr _ _ hread hend havoids).1 _ hvalue⟩

end SassData.Literal
