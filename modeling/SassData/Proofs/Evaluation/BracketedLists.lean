import SassData.Proofs.Literal.LiteralExpressions
import SassData.Proofs.Source.WrittenExpressions

/-!
# Parentheses in brackets

Parentheses leave no trace, and brackets take the list they stand around for their own. So an
expression in parentheses inside brackets is the only item of a list, unless it is a list without
brackets itself: then its items are the items. A variable in its place is the only item whatever it
holds.
-/

namespace SassData

set_option autoImplicit false

open Source (readExpr EndsInComment)

/-! ## Reading -/

namespace Source

theorem readExpr_enclosed {text : String} {e : Expr} (he : readExpr text = .ok e)
    (hend : ¬ EndsInComment text.toList) :
    readExpr ("[(" ++ text ++ ")]") = .ok (Reading.inBrackets e) := by
  obtain ⟨r, hr, hfinish, hfault⟩ := readExpr_eq_ok_iff.mp he
  have htokens : tokens (.expression false) ("[(" ++ text ++ ")]").toList =
      .symbol .openBracket :: .symbol .openParen :: (tokens (.expression false) text.toList ++
        [.symbol .closeParen, .symbol .closeBracket]) := by
    have htext : ("[(" ++ text ++ ")]").toList = '[' :: '(' :: (text.toList ++ [')', ']']) := by
      simp
    rw [htext, tokens_openBracket, tokens_openParen,
      Literal.tokens_append_of_read hr hend isBoundary_closeParen, tokens_closeParen,
      tokens_closeBracket, tokens_nil]
  have hinside := Reading.pushAll_above (.paren [.bracket]) hr
  have hparen := Reading.push?_closeParen_above hfinish [.bracket]
  have hbracket : Reading.push? ⟨[.bracket], .operand e, r.fault⟩ (.symbol .closeBracket) =
      some ⟨[], .operand (Reading.inBrackets e), r.fault⟩ :=
    push?_closeBracket (Reading.closeItem_floor rfl e) rfl
  rw [readExpr_eq_ok_iff]
  refine ⟨⟨[], .operand (Reading.inBrackets e), r.fault⟩, ?_, ?_, hfault⟩
  · rw [htokens]
    change pushAll Reading.push? (Reading.start.above [.paren, .bracket]) _ = _
    rw [pushAll_append, hinside, Option.bind_some, pushAll_cons, hparen, Option.bind_some,
      pushAll_cons, hbracket]
    rfl
  · rw [Reading.finish?_operand_eq_some_iff, Reading.closeItem_floor rfl]
    rfl

end Source

/-! ## Evaluation -/

def Expr.isOpen : Expr → Bool
  | .list _ _ bracketed => !bracketed
  | _ => false

def Value.bracketed : Value → Value
  | .list items separator _ => .list items separator true
  | v => v

theorem Expr.exists_of_isOpen {e : Expr} (h : e.isOpen = true) :
    ∃ items separator, e = .list items separator false := by
  cases e with
  | list items separator bracketed =>
    cases bracketed with
    | false => exact ⟨items, separator, rfl⟩
    | true => cases h
  | _ => cases h

theorem Source.Reading.inBrackets_of_not_open {e : Expr} (h : e.isOpen = false) :
    Reading.inBrackets e = .list [e] .undecided true := by
  unfold inBrackets
  split
  · cases h
  · rfl

/-- A list is never its own only item. -/
theorem Value.bracketed_ne_singleton (items : List Value) (separator : Separator) :
    (Value.list items separator false).bracketed ≠
      .list [.list items separator false] .undecided true := by
  intro h
  have hitems : items = [.list items separator false] := (Value.list.inj h).1
  have hsize := congrArg sizeOf hitems
  simp only [List.cons.sizeOf_spec, List.nil.sizeOf_spec, Value.list.sizeOf_spec] at hsize
  omega

namespace Evaluation

theorem exists_evaluate_eq (scope : Scope) :
    ∃ default, ∀ e, evaluate scope e = evaluateWith scope default e := by
  unfold evaluate
  cases defaultCount scope.functions with
  | zero => exact ⟨_, fun _ => rfl⟩
  | succ n => exact ⟨_, fun _ => rfl⟩

theorem evaluate_singleton (scope : Scope) (e : Expr) (separator : Separator) (bracketed : Bool) :
    evaluate scope (.list [e] separator bracketed) =
      (fun v => .list [v] separator bracketed) <$> evaluate scope e := by
  obtain ⟨default, heq⟩ := exists_evaluate_eq scope
  rw [heq, heq]
  simp [evaluateWith, evaluateItems]

theorem evaluate_bracketed (scope : Scope) (items : List Expr) (separator : Separator) :
    evaluate scope (.list items separator true) =
      Value.bracketed <$> evaluate scope (.list items separator false) := by
  obtain ⟨default, heq⟩ := exists_evaluate_eq scope
  rw [heq, heq]
  simp [evaluateWith, Value.bracketed]

theorem exists_of_evaluate_open {scope : Scope} {items : List Expr} {separator : Separator}
    {v : Value} {trace after : List Invocation}
    (h : evaluate scope (.list items separator false) trace = .ok (v, after)) :
    ∃ values, v = .list values separator false := by
  obtain ⟨default, heq⟩ := exists_evaluate_eq scope
  rw [heq, evaluateWith] at h
  obtain ⟨values, middle, -, hv⟩ := Traced.bind_eq_ok_iff.mp h
  cases hv
  exact ⟨values, rfl⟩

theorem evaluate_variable {scope : Scope} {name : String} {v : Value}
    (h : scope.assigned.get? name = some v) : evaluate scope (.variable name) = pure v := by
  obtain ⟨default, heq⟩ := exists_evaluate_eq scope
  rw [heq, evaluateWith, h]

theorem evaluate_inBrackets (scope : Scope) (e : Expr) :
    evaluate scope (Source.Reading.inBrackets e) =
      (fun v => if e.isOpen then v.bracketed else .list [v] .undecided true) <$>
        evaluate scope e := by
  cases h : e.isOpen with
  | true =>
    obtain ⟨items, separator, rfl⟩ := Expr.exists_of_isOpen h
    exact evaluate_bracketed scope items separator
  | false =>
    rw [Source.Reading.inBrackets_of_not_open h]
    exact evaluate_singleton scope e .undecided true

end Evaluation

namespace Session

/-- An expression in parentheses and brackets is the only item of a list exactly if it is no list
without brackets. In such a list the brackets take the place of the parentheses. A variable that
holds the value is the only item in any case. -/
theorem evaluate_enclosed_iff {source : String} {e : Expr} (he : readExpr source = .ok e)
    (hend : ¬ EndsInComment source.toList) (s : Session) {v : Value} {trace : List Invocation}
    (hv : s.evaluate e = .ok (v, trace)) :
    ∃ enclosed, readExpr ("[(" ++ source ++ ")]") = .ok enclosed ∧
      ((∃ after, s.evaluate enclosed = .ok (.list [v] .undecided true, after)) ↔
        e.isOpen = false) ∧
      (e.isOpen = true → s.evaluate enclosed = .ok (v.bracketed, trace)) ∧
      ∃ next held, s.step (.assign "x" e []) = .ok (next, none) ∧ readExpr "[$x]" = .ok held ∧
        next.evaluate held = .ok (.list [(v.hold s.held).1] .undecided true, trace) := by
  have heval : s.evaluate (Source.Reading.inBrackets e) =
      .ok (if e.isOpen then v.bracketed else .list [v] .undecided true, trace) := by
    change (Evaluation.evaluate ⟨s.functions, s.assigned⟩ e).run s.trace = _ at hv
    rw [evaluate, Evaluation.evaluate_inBrackets, StateT.run_map, hv]
    rfl
  refine ⟨_, Source.readExpr_enclosed he hend, ?_, fun hopen => by rw [heval, if_pos hopen], ?_⟩
  · rw [heval]
    cases hopen : e.isOpen with
    | false => exact iff_of_true ⟨trace, rfl⟩ rfl
    | true =>
      -- The brackets went to the list itself, which is not the list of it alone.
      refine iff_of_false ?_ Bool.true_eq_false.mp
      rintro ⟨after, h⟩
      obtain ⟨items, separator, rfl⟩ := Expr.exists_of_isOpen hopen
      obtain ⟨values, rfl⟩ := Evaluation.exists_of_evaluate_open hv
      exact Value.bracketed_ne_singleton values separator (congrArg Prod.fst (Except.ok.inj h))
  · have hstep : s.step (.assign "x" e []) = .ok
        (⟨s.functions, Named.put "x" (v.hold s.held).1 s.assigned, s.debug, trace,
          (v.hold s.held).2⟩, none) := by
      simp only [step, hv]
      rfl
    refine ⟨_, .list [.variable "x"] .undecided true, hstep, rfl, ?_⟩
    rw [evaluate, Evaluation.evaluate_singleton,
      Evaluation.evaluate_variable (Named.get?_put_self s.assigned "x" _)]
    rfl

/-- A sum in parentheses and brackets. -/
theorem evaluate_enclosed_iff_sum :
    (readExpr "1 + 2").isOk = true ∧ ¬ EndsInComment "1 + 2".toList ∧
      ∃ enclosed, readExpr "[(1 + 2)]" = .ok enclosed ∧
        ∃ after, (start []).evaluate enclosed =
          .ok (.list [.number (.ofInt 3)] .undecided true, after) := by
  have he : readExpr "1 + 2" = .ok (.binary .add (.literal (.number (.ofInt 1)))
      (.literal (.number (.ofInt 2)))) := rfl
  have hend : ¬ EndsInComment "1 + 2".toList := Literal.not_endsInComment (by decide)
  have hv : (start []).evaluate (.binary .add (.literal (.number (.ofInt 1)))
      (.literal (.number (.ofInt 2)))) = .ok (.number (.ofInt 3), []) := rfl
  obtain ⟨enclosed, hread, hiff, -⟩ := evaluate_enclosed_iff he hend (start []) hv
  exact ⟨by rw [he]; rfl, hend, enclosed, hread, hiff.mpr rfl⟩

/-- Items without a comma between them. -/
theorem not_evaluate_enclosed :
    ¬ ∀ (source : String) (v : Value), ¬ EndsInComment source.toList →
      evaluateSource source [] = .ok v →
        ∃ separator, evaluateSource ("[(" ++ source ++ ")]") [] =
          .ok (.list [v] separator true) := by
  intro hall
  have hend : ¬ EndsInComment "1 2".toList := Literal.not_endsInComment (by decide)
  have hv : evaluateSource "1 2" [] =
      .ok (.list [.number (.ofInt 1), .number (.ofInt 2)] .space false) := rfl
  have hw : evaluateSource "[(1 2)]" [] =
      .ok (.list [.number (.ofInt 1), .number (.ofInt 2)] .space true) := rfl
  obtain ⟨separator, h⟩ := hall "1 2" _ hend hv
  cases hw.symm.trans h

end Session

end SassData
