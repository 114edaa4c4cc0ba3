import SassData.Host.ToStyle
import SassData.Proofs.Evaluation.AddedFunctions
import SassData.Proofs.Evaluation.FunctionRegistries
import SassData.Proofs.Literal.ProbeReading
import SassData.Proofs.Session.SessionSteps

/-!
# What a text is taken for

A text stands for what the first call of the probe is given. Where the text in parentheses is an
expression, the call around it comes last, so this is the value of the expression unless the
expression calls the probe itself. Where it is no expression, the text may have closed the call and
gone on in ways of its own, and then what is shown is no value of the text.
-/

namespace SassData.Literal

set_option autoImplicit false

open Evaluation

/-! ## The probe among the functions -/

theorem find?_merge_probe (function : String) :
    (Builtin.registry.merge probeRegistry).find? function =
      if probeName = Text.canonicalName function then some probeFunction
      else Builtin.registry.find? function :=
  Named.get?_put Builtin.registry probeName (Text.canonicalName function) probeFunction

theorem default_literal {function : String} {f : Function}
    (hf : (Builtin.registry.merge probeRegistry).find? function = some f) {p : Parameter}
    (hp : p ∈ f.signature.parameters) {e : Expr} (he : p.default = some e) :
    ∃ v, e = .literal v := by
  rw [find?_merge_probe] at hf
  split at hf
  · cases hf
    cases List.mem_singleton.mp hp
    cases he
  · exact Builtin.default_literal (Builtin.mem_of_get? hf).2 hp he

theorem without_probe (s t : Scope) (m n : Nat) :
    Without probeName (Builtin.registry.merge probeRegistry) (Builtin.registry.merge [])
      (evaluateTo s m) (evaluateTo t n) := by
  constructor
  · intro function hn
    rw [find?_merge_probe, if_neg fun h => hn h.symm]
    rfl
  · intro function hn
    rw [find?_merge_probe, if_pos hn.symm]
    rfl
  · intro function f hf
    rw [find?_merge_probe] at hf
    split at hf
    · next h =>
      cases hf
      exact h
    · exact (Builtin.mem_of_get? hf).1
  · intro function f hf p hp e he
    obtain ⟨v, rfl⟩ := default_literal hf hp he
    rw [evaluateTo_literal, evaluateTo_literal]
    exact .pure v

/-! ## The run of the sheet -/

def scope : Scope := ⟨Builtin.registry.merge probeRegistry, []⟩

def plainScope : Scope := ⟨Builtin.registry.merge [], []⟩

theorem evaluate_eq (e : Expr) :
    (Session.start probeRegistry).evaluate e = evaluateWith scope (evaluateTo scope 3) e [] := by
  have hn : defaultCount scope.functions = 4 := rfl
  change evaluateTo scope (defaultCount scope.functions) e [] = _
  rw [hn]
  rfl

theorem evaluate_plain_eq (e : Expr) :
    (Session.start []).evaluate e =
      evaluateWith plainScope (evaluateTo plainScope 3) e [] := by
  have hn : defaultCount plainScope.functions = 4 := rfl
  change evaluateTo plainScope (defaultCount plainScope.functions) e [] = _
  rw [hn]
  rfl

theorem evaluate_plain_of_evaluate {e : Expr} {v : Value} {trace : List Invocation}
    (h : (Session.start probeRegistry).evaluate e = .ok (v, trace))
    (hno : ∀ i ∈ trace, i.function ≠ probeName) :
    (Session.start []).evaluate e = .ok (v, trace) := by
  have hsame : SameBut probeName scope plainScope (evaluateTo scope 3)
      (evaluateTo plainScope 3) :=
    ⟨rfl, call_mirrors (without_probe scope plainScope 3 3)⟩
  rw [evaluate_eq] at h
  obtain ⟨new, rfl, hnew⟩ := evaluateWith_mirrors hsame e [] v trace h
  rw [evaluate_plain_eq]
  exact hnew fun i hi => hno i (List.mem_append_left [] hi)

theorem find?_probe : scope.functions.find? "___" = some probeFunction :=
  Named.get?_put_self Builtin.registry probeName probeFunction

theorem call_probe (default : Expr → Traced Value) (v : Value) (trace : List Invocation) :
    call scope default "___" [v] [] trace = .ok (v, ⟨probeName, [v]⟩ :: trace) := by
  simp only [call, find?_probe]
  rfl

theorem call_probe_many (default : Expr → Traced Value) (v w : Value) (vs : List Value)
    (trace : List Invocation) {result : Value × List Invocation} :
    call scope default "___" (v :: w :: vs) [] trace ≠ .ok result := by
  simp only [call, find?_probe]
  rintro ⟨⟩

theorem evaluate_probe {e : Expr} {u : Value} {after : List Invocation}
    (h : (Session.start probeRegistry).evaluate (.call "___" [e] [] none) = .ok (u, after)) :
    ∃ trace, (Session.start probeRegistry).evaluate e = .ok (u, trace) ∧
      after = ⟨probeName, [u]⟩ :: trace := by
  rw [evaluate_eq] at h ⊢
  simp only [evaluateWith, evaluateItems, evaluateKeywords, bind_assoc, pure_bind] at h
  obtain ⟨v, trace, he, hc⟩ := Traced.bind_eq_ok_iff.mp h
  rw [call_probe] at hc
  cases hc
  exact ⟨trace, he, rfl⟩

theorem evaluate_probe_many {a b : Expr} {es : List Expr} {result : Value × List Invocation} :
    (Session.start probeRegistry).evaluate (.call "___" (a :: b :: es) [] none) ≠ .ok result := by
  intro h
  rw [evaluate_eq] at h
  simp only [evaluateWith, evaluateItems, evaluateKeywords, bind_assoc, pure_bind] at h
  obtain ⟨v, trace, -, h⟩ := Traced.bind_eq_ok_iff.mp h
  obtain ⟨w, trace, -, h⟩ := Traced.bind_eq_ok_iff.mp h
  obtain ⟨vs, trace, -, h⟩ := Traced.bind_eq_ok_iff.mp h
  exact call_probe_many _ v w vs trace h

/-- What a text is taken for is what the sheet's run shows. -/
theorem exists_run_of_read {text : String} {w : Value} (h : read text = .ok (some w)) :
    ∃ statements last blocks, Source.readSheet (sheetOf text) = .ok statements ∧
      (Session.start probeRegistry).run statements = (last, .ok blocks) ∧
      firstProbed? last.trace = some w := by
  unfold read at h
  split at h
  · next compiled hc =>
    obtain ⟨statements, hs, hc⟩ := Outcome.bind_eq_ok_iff.mp hc
    rw [ofDeclarations_probe] at hc
    cases hr : (Session.start probeRegistry).run statements with
    | mk last result =>
      obtain ⟨r, he, hc⟩ := Outcome.bind_eq_ok_iff.mp hc
      cases he
      rw [hr] at hc
      obtain ⟨blocks, rfl, hc⟩ := Outcome.bind_eq_ok_iff.mp hc
      cases hc
      rw [Except.ok.injEq] at h
      exact ⟨statements, last, blocks, hs, hr, h⟩
  · next failure _ =>
    split at h <;> cases h

/-- Where the text in parentheses is an expression, what it is taken for is what the run of the
expression shows of itself, or else its value. -/
theorem exists_evaluate_of_read {text : String} {w : Value} {e : Expr}
    (h : read text = .ok (some w)) (he : Source.readExpr ("(" ++ text ++ ")") = .ok e) :
    ∃ v trace, (Session.start probeRegistry).evaluate e = .ok (v, trace) ∧
      firstProbed? (⟨probeName, [v]⟩ :: trace) = some w := by
  obtain ⟨statements, last, blocks, hs, hr, hw⟩ := exists_run_of_read h
  rcases statements_of_readSheet he hs with rfl | ⟨a, b, es, rfl⟩
  · obtain ⟨v, hv⟩ := Session.trace_of_run hr
    obtain ⟨trace, ht, hlast⟩ := evaluate_probe hv
    exact ⟨v, trace, ht, by rw [← hlast, hw]⟩
  · obtain ⟨v, hv⟩ := Session.trace_of_run hr
    exact absurd hv evaluate_probe_many

/-! ## Soundness -/

theorem firstProbed?_of_called {i : Invocation} {trace : List Invocation}
    (h : ∃ j ∈ trace, j.function = probeName) : firstProbed? (i :: trace) = firstProbed? trace := by
  obtain ⟨j, hj, hname⟩ := h
  have hfound : (trace.reverse.find? fun i => i.function == probeName).isSome := by
    rw [List.find?_isSome]
    exact ⟨j, List.mem_reverse.mpr hj, by simp [hname]⟩
  obtain ⟨k, hk⟩ := Option.isSome_iff_exists.mp hfound
  simp [firstProbed?, hk]

theorem firstProbed?_of_not_called {v : Value} {trace : List Invocation}
    (h : ∀ i ∈ trace, i.function ≠ probeName) :
    firstProbed? (⟨probeName, [v]⟩ :: trace) = some v := by
  have hnone : (trace.reverse.find? fun i => i.function == probeName) = none := by
    rw [List.find?_eq_none]
    intro i hi
    simpa using h i (List.mem_reverse.mp hi)
  simp [firstProbed?, hnone]

/-- If a run of the expression calls the probe, the first such call is given the value that the
expression has without the probe. -/
def ShowsValue (e : Expr) : Prop :=
  ∀ v trace, (Session.start probeRegistry).evaluate e = .ok (v, trace) →
    (∃ i ∈ trace, i.function = probeName) →
      ∃ w after, firstProbed? trace = some w ∧ (Session.start []).evaluate e = .ok (w, after)

theorem evaluateSource_eq_ok_iff {source : String} {v : Value} :
    evaluateSource source [] = .ok v ↔
      ∃ e after, Source.readExpr source = .ok e ∧
        (Session.start []).evaluate e = .ok (v, after) := by
  have hfunctions : Registry.ofDeclarations [] = .ok [] := rfl
  simp only [evaluateSource, hfunctions]
  constructor
  · intro h
    obtain ⟨e, he, h⟩ := Outcome.bind_eq_ok_iff.mp h
    obtain ⟨functions, hf, h⟩ := Outcome.bind_eq_ok_iff.mp h
    cases hf
    obtain ⟨⟨u, after⟩, hu, h⟩ := Outcome.bind_eq_ok_iff.mp h
    cases h
    exact ⟨e, after, he, hu⟩
  · rintro ⟨e, after, he, hv⟩
    refine Outcome.bind_eq_ok_iff.mpr ⟨e, he, ?_⟩
    refine Outcome.bind_eq_ok_iff.mpr ⟨[], rfl, ?_⟩
    exact Outcome.bind_eq_ok_iff.mpr ⟨(v, after), hv, rfl⟩

/-- What a text is taken for is its value exactly if the text in parentheses is an expression that
shows its value. -/
theorem evaluateSource_iff_of_read {text : String} {w : Value} (h : read text = .ok (some w)) :
    evaluateSource ("(" ++ text ++ ")") [] = .ok w ↔
      ∃ e, Source.readExpr ("(" ++ text ++ ")") = .ok e ∧ ShowsValue e := by
  rw [evaluateSource_eq_ok_iff]
  constructor
  · rintro ⟨e, after, he, hw⟩
    refine ⟨e, he, ?_⟩
    intro v trace hv hcalled
    obtain ⟨v', trace', hv', hfirst⟩ := exists_evaluate_of_read h he
    rw [hv] at hv'
    cases hv'
    rw [firstProbed?_of_called hcalled] at hfirst
    exact ⟨w, after, hfirst, hw⟩
  · rintro ⟨e, he, hshows⟩
    obtain ⟨v, trace, hv, hfirst⟩ := exists_evaluate_of_read h he
    by_cases hcalled : ∃ i ∈ trace, i.function = probeName
    · obtain ⟨w', after, hw', hplain⟩ := hshows v trace hv hcalled
      rw [firstProbed?_of_called hcalled, hw'] at hfirst
      cases hfirst
      exact ⟨e, after, he, hplain⟩
    · have hno : ∀ i ∈ trace, i.function ≠ probeName := fun i hi hname => hcalled ⟨i, hi, hname⟩
      rw [firstProbed?_of_not_called hno] at hfirst
      cases hfirst
      exact ⟨e, trace, he, evaluate_plain_of_evaluate hv hno⟩

end SassData.Literal

namespace SassData.Host

set_option autoImplicit false

theorem read_of_ofText {options : ToStyle} {text : String} {w : Value}
    (h : ofText options text = .ok w) (hw : ∀ s, w ≠ .string s) :
    Literal.read text = .ok (some w) := by
  unfold ofText at h
  dsimp only at h
  split at h
  · obtain ⟨literal, hl, hv⟩ := Outcome.bind_eq_ok_iff.mp h
    obtain ⟨found, hf, hl⟩ := Outcome.bind_eq_ok_iff.mp hl
    rw [hf]
    split at hl <;> cases hl <;> cases hv
    · rfl
    · rfl
    · exact absurd rfl (hw _)
  · cases h
    exact absurd rfl (hw _)

/-- A text that is taken for a literal, by itself or as data, is taken for its value exactly if the
text in parentheses is an expression that shows its value. -/
theorem sound_iff (options : ToStyle) (text : String) (w : Value)
    (h : Literal.read text = .ok (some w) ∨
      ofText options text = .ok w ∧ ∀ s, w ≠ .string s) :
    evaluateSource ("(" ++ text ++ ")") [] = .ok w ↔
      ∃ e, Source.readExpr ("(" ++ text ++ ")") = .ok e ∧ Literal.ShowsValue e := by
  rcases h with h | ⟨h, hw⟩
  · exact Literal.evaluateSource_iff_of_read h
  · exact Literal.evaluateSource_iff_of_read (read_of_ofText h hw)

def number? : Outcome (Option Value) → Option Number
  | .ok (some (.number n)) => some n
  | _ => none

theorem eq_of_number? {found : Outcome (Option Value)} {n : Number} (h : number? found = some n) :
    found = .ok (some (.number n)) := by
  unfold number? at h
  split at h <;> cases h
  rfl

theorem sound_iff_measure :
    Literal.read "10px" = .ok (some (.number ⟨.int 10, ["px"], []⟩)) ∧
      (evaluateSource ("(" ++ "10px" ++ ")") [] = .ok (.number ⟨.int 10, ["px"], []⟩) ↔
        ∃ e, Source.readExpr ("(" ++ "10px" ++ ")") = .ok e ∧ Literal.ShowsValue e) := by
  have hread : Literal.read "10px" = .ok (some (.number ⟨.int 10, ["px"], []⟩)) :=
    eq_of_number? (by decide +kernel)
  exact ⟨hread, sound_iff .standard "10px" _ (Or.inl hread)⟩

/-- A text that closes the call and turns the rest of the sheet into a comment is taken for a number
and is no expression. -/
theorem not_sound : ¬ ∀ (text : String) (w : Value), Literal.read text = .ok (some w) →
    evaluateSource ("(" ++ text ++ ")") [] = .ok w := by
  intro h
  have hread : Literal.read "1)); //" = .ok (some (.number (.ofInt 1))) :=
    eq_of_number? (by decide +kernel)
  have hfail : (evaluateSource ("(" ++ "1)); //" ++ ")") []).isOk = false := by decide +kernel
  rw [h _ _ hread] at hfail
  cases hfail

end SassData.Host
