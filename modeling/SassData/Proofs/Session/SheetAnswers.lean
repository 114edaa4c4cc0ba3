import SassData.Host.ToStyle
import SassData.Proofs.Session.StuckSheets

/-!
# What answers and what does not

A compilation ends in a result or in a failure of style sheets, a text that is tried as a literal
means something or nothing, and data that is one text has a value, all of that exactly as long as
the style sheet that is run for it does not get stuck.
-/

namespace SassData

set_option autoImplicit false

open Outcome (not_escapes_ok escapes_error_iff escapes_bind_iff escapes_map_iff)

/-! ## The functions at hand -/

theorem Builtin.contained : (Builtin.registry.merge []).Contained where
  literal _ _ hf _ hp _ he := Builtin.default_literal (Builtin.mem_of_get? hf).2 hp he
  counted := by decide

theorem Literal.contained : (Builtin.registry.merge Literal.probeRegistry).Contained where
  literal name f hf p hp e he := by
    have hmerge := Named.get?_put Builtin.registry probeName (Text.canonicalName name) probeFunction
    rw [show (Builtin.registry.merge probeRegistry).find? name = _ from hmerge] at hf
    split at hf
    · cases hf
      cases List.mem_singleton.mp hp
      cases he
    · exact Builtin.default_literal (Builtin.mem_of_get? hf).2 hp he
  counted := by decide

/-! ## Compilation -/

/-- A text is a style sheet whose run, with functions besides the built-in ones, gets stuck. -/
def SheetStuck (functions : Registry) (source : String) : Prop :=
  ∃ statements, Source.readSheet source = .ok statements ∧
    (Session.start functions).RunStuck statements

theorem escapes_compile_iff {source : String} {declarations : Declarations} {functions : Registry}
    (hd : Registry.ofDeclarations declarations = .ok functions)
    (h : (Builtin.registry.merge functions).Contained) :
    Outcome.Escapes (compile source declarations) ↔ SheetStuck functions source := by
  rw [compile, escapes_bind_iff, hd]
  constructor
  · rintro (⟨failure, hread, he⟩ | ⟨statements, hread, he⟩)
    · rw [Source.isCompileError_of_readWhole hread] at he
      cases he
    · refine ⟨statements, hread, (Session.escapes_run_iff h statements).mp ?_⟩
      rcases escapes_bind_iff.mp he with he | ⟨_, hf, he⟩
      · exact absurd he (not_escapes_ok functions)
      · cases hf
        rcases escapes_bind_iff.mp he with he | ⟨_, -, he⟩
        · exact he
        · exact absurd he (not_escapes_ok _)
  · rintro ⟨statements, hread, he⟩
    have hrun := (Session.escapes_run_iff h statements).mpr he
    refine Or.inr ⟨statements, hread, ?_⟩
    refine escapes_bind_iff.mpr (Or.inr ⟨functions, rfl, ?_⟩)
    exact escapes_bind_iff.mpr (Or.inl hrun)

/-- A computation has a result or fails as style sheets do. -/
def Outcome.Answers {α : Type} (x : Outcome α) : Prop :=
  (∃ a, x = .ok a) ∨ ∃ failure, x = .error failure ∧ failure.isCompileError = true

theorem Outcome.answers_iff {α : Type} {x : Outcome α} : x.Answers ↔ ¬ x.Escapes := by
  cases x with
  | error failure =>
    rw [escapes_error_iff, Bool.not_eq_false]
    constructor
    · rintro (⟨a, ha⟩ | ⟨_, hf, hc⟩)
      · cases ha
      · cases hf
        exact hc
    · exact fun hc => Or.inr ⟨failure, rfl, hc⟩
  | ok a => exact iff_of_true (Or.inl ⟨a, rfl⟩) (not_escapes_ok a)

/-! ## Literals and texts -/

theorem Literal.read_eq_ok_iff {text : String} :
    (∃ found, read text = .ok found) ↔ ¬ SheetStuck probeRegistry (sheetOf text) := by
  rw [← escapes_compile_iff ofDeclarations_probe contained]
  unfold read
  cases compile (sheetOf text) probe with
  | ok compiled => exact iff_of_true ⟨_, rfl⟩ (not_escapes_ok compiled)
  | error failure =>
    rw [escapes_error_iff]
    dsimp only
    cases hf : failure.isCompileError
    · rw [if_neg Bool.false_ne_true]
      exact iff_of_false (fun ⟨_, h⟩ => nomatch h) (not_not_intro rfl)
    · rw [if_pos rfl]
      exact iff_of_true ⟨none, rfl⟩ Bool.noConfusion

namespace Host

theorem literal?_eq_ok_iff {text : String} :
    (∃ found, literal? text = .ok found) ↔ ∃ found, Literal.read text = .ok found := by
  unfold literal?
  cases Literal.read text with
  | error failure => exact iff_of_false (fun ⟨_, h⟩ => nomatch h) fun ⟨_, h⟩ => nomatch h
  | ok found =>
    refine iff_of_true ?_ ⟨found, rfl⟩
    rcases found with _ | v
    · exact ⟨none, rfl⟩
    · cases v <;> exact ⟨_, rfl⟩

theorem ofText_eq_ok_iff {options : ToStyle} {text : String} :
    (∃ v, ofText options text = .ok v) ↔
      ¬ (options.readLiterals = true ∧ Text.isQuoted text = false ∧
        SheetStuck Literal.probeRegistry (Literal.sheetOf text)) := by
  have hbind {found : Outcome (Option Value)} {f : Option Value → Value} :
      (∃ v, (do return f (← found) : Outcome Value) = .ok v) ↔ ∃ a, found = .ok a := by
    cases found with
    | error failure => exact iff_of_false (fun ⟨_, h⟩ => nomatch h) fun ⟨_, h⟩ => nomatch h
    | ok a => exact iff_of_true ⟨f a, rfl⟩ ⟨a, rfl⟩
  unfold ofText
  cases hl : options.readLiterals && !Text.isQuoted text with
  | true =>
    rw [Bool.and_eq_true, Bool.not_eq_true'] at hl
    rw [and_iff_right hl.1, and_iff_right hl.2, ← Literal.read_eq_ok_iff, ← literal?_eq_ok_iff]
    exact hbind
  | false =>
    refine iff_of_true ⟨_, rfl⟩ ?_
    rintro ⟨hr, hq, -⟩
    rw [hr, hq] at hl
    exact Bool.noConfusion hl

theorem launch_text {options : ToStyle} {text : String} {v : Value} (s : Future.Store Host) :
    (s.launch (toStyle options (.text text))).2 = .now (.value v) ↔
      ofText options text = .ok v := by
  have hplan : (toStyle options (.text text)).plan = planOf (ofText options text) := by
    simp [toStyle, stylePlan, handings, planTo, planWith]
  unfold Future.Store.launch
  rw [hplan]
  cases ofText options text with
  | error failure => simp [planOf, Plan.prospect]
  | ok w => simp [planOf, Plan.prospect]

/-- A compilation with the built-in functions answers, trying a text answers, and a text has a value
as data, each exactly if the style sheet that is run for it does not get stuck. -/
theorem answers_iff_not_stuck (source text : String) (options : ToStyle)
    (store : Future.Store Host) :
    ((compile source []).Answers ↔ ¬ SheetStuck [] source) ∧
    ((∃ found, Literal.read text = .ok found) ↔
      ¬ SheetStuck Literal.probeRegistry (Literal.sheetOf text)) ∧
    ((∃ v, (store.launch (toStyle options (.text text))).2 = .now (.value v)) ↔
      ¬ (options.readLiterals = true ∧ Text.isQuoted text = false ∧
        SheetStuck Literal.probeRegistry (Literal.sheetOf text))) := by
  refine ⟨?_, Literal.read_eq_ok_iff, ?_⟩
  · rw [Outcome.answers_iff, escapes_compile_iff rfl Builtin.contained]
  · simp only [launch_text, ofText_eq_ok_iff]

/-- The remainder of an infinite number escapes, from a style sheet and from a text. -/
theorem not_answers :
    ¬ (compile "$a: 1e999 % 2;" []).Answers ∧
    (¬ ∃ found, Literal.read "1e999 % 2" = .ok found) ∧
    ¬ ∃ v, ofText ⟨true, .leave, "'"⟩ "1e999 % 2" = .ok v := by
  have hcompile : Outcome.Escapes (compile "$a: 1e999 % 2;" []) := by decide +kernel
  have hread : (Literal.read "1e999 % 2").isOk = false := by decide +kernel
  have htext : (ofText ⟨true, .leave, "'"⟩ "1e999 % 2").isOk = false := by decide +kernel
  refine ⟨fun h => Outcome.answers_iff.mp h hcompile, ?_, ?_⟩
  · rintro ⟨found, h⟩
    rw [h] at hread
    cases hread
  · rintro ⟨v, h⟩
    rw [h] at htext
    cases htext

end Host

end SassData
