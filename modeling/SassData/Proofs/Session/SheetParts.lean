import SassData.Proofs.Evaluation.FunctionRegistries
import SassData.Proofs.Source.SheetConcatenation

/-!
# Style sheets run in parts

Statements that are run in two parts, the second from where the first has ended, come to what they
come to in one run, and so do the texts they are read from. What a failure leaves behind is the same
as well.
-/

namespace SassData

set_option autoImplicit false

namespace Session

/-! ## Parts of a run -/

def joined (a b : String) : String := if a.isEmpty || b.isEmpty then a ++ b else a ++ "\n" ++ b

/-- Runs two style sheets in one session. The second is left alone if the first fails. -/
def runBoth (s : Session) (a b : String) : Session × Outcome String :=
  match s.runSource a with
  | (middle, .error failure) => (middle, .error failure)
  | (middle, .ok css) =>
    let (last, rest) := middle.runSource b
    (last, rest.map (joined css))

def compiled : Session × Outcome String → Outcome Compiled
  | (_, .error failure) => .error failure
  | (last, .ok css) => .ok ⟨css, last.assigned, last.debug, last.trace⟩

theorem run_append (s : Session) (as bs : List Statement) :
    s.run (as ++ bs) = match s.run as with
      | (middle, .error failure) => (middle, .error failure)
      | (middle, .ok blocks) => ((middle.run bs).1, (middle.run bs).2.map (blocks ++ ·)) := by
  induction as generalizing s with
  | nil =>
    simp only [List.nil_append, run]
    rcases s.run bs with ⟨last, failure | blocks⟩
    · rfl
    · rfl
  | cons statement as ih =>
    rw [List.cons_append, run, run]
    cases s.step statement with
    | error failure => rfl
    | ok next =>
      obtain ⟨next, text⟩ := next
      simp only [ih]
      rcases next.run as with ⟨middle, failure | blocks⟩
      · rfl
      · simp only [Except.map]
        rcases (middle.run bs).2 with failure | rest
        · rfl
        · simp [List.append_assoc]

theorem isEmpty_sheetText (blocks : List String) :
    (sheetText blocks).isEmpty = blocks.isEmpty := by
  cases blocks with
  | nil => rfl
  | cons block blocks => simp [sheetText]

theorem sheetText_append (as bs : List String) :
    sheetText (as ++ bs) = joined (sheetText as) (sheetText bs) := by
  simp only [joined, isEmpty_sheetText]
  rcases as with _ | ⟨a, as⟩
  · simp [sheetText]
  rcases bs with _ | ⟨b, bs⟩
  · simp [sheetText]
  have hblank : ("\n" : String) ++ "\n" = "\n\n" := rfl
  simp only [sheetText, String.intercalate_append_of_ne_nil (List.cons_ne_nil a as)
    (List.cons_ne_nil b bs), ← hblank]
  simp [String.append_assoc]

/-! ## Parts of a text -/

/-- What a session makes of two texts on lines of their own is what it makes of one after the
other. -/
theorem runSource_append (s : Session) {a b : String} {as bs : List Statement}
    (ha : Source.readSheet a = .ok as) (hb : Source.readSheet b = .ok bs) :
    s.runSource (a ++ "\n" ++ b) = s.runBoth a b := by
  simp only [runBoth, runSource, ha, hb, Source.readSheet_append ha hb, run_append]
  rcases s.run as with ⟨middle, failure | blocks⟩
  · rfl
  · simp only [Except.map]
    rcases (middle.run bs).2 with failure | rest
    · rfl
    · exact congrArg (fun text => (_, Except.ok text)) (sheetText_append blocks rest)

theorem compile_eq (source : String) {functions : Declarations} {registry : Registry}
    (hr : Registry.ofDeclarations functions = .ok registry) :
    compile source functions = compiled ((start registry).runSource source) := by
  simp only [compile, hr, runSource]
  cases Source.readSheet source with
  | error failure => rfl
  | ok statements =>
    simp only [bind, Except.bind]
    rcases (start registry).run statements with ⟨last, failure | blocks⟩
    · rfl
    · rfl

end Session

/-- Two texts that are style sheets make one style sheet on lines of their own, with the statements
of both. Its compilation is that of a session which runs the first and then the second. -/
theorem compile_append (a b : String) (functions : Declarations) (registry : Registry)
    (as bs : List Statement) (ha : Source.readSheet a = .ok as) (hb : Source.readSheet b = .ok bs)
    (hr : Registry.ofDeclarations functions = .ok registry) :
    Source.readSheet (a ++ "\n" ++ b) = .ok (as ++ bs) ∧
      (Session.start registry).runSource (a ++ "\n" ++ b) =
        (Session.start registry).runBoth a b ∧
      compile (a ++ "\n" ++ b) functions =
        Session.compiled ((Session.start registry).runBoth a b) := by
  have hrun := (Session.start registry).runSource_append ha hb
  refine ⟨Source.readSheet_append ha hb, hrun, ?_⟩
  rw [Session.compile_eq _ hr, hrun]

/-- A variable is set in one text and shown in the other. -/
theorem compile_append_variable :
    Source.readSheet "$a: 1;" = .ok [.assign "a" (.literal (.number (.ofInt 1))) []] ∧
      Source.readSheet "p \x7b q: ___($a); \x7d" =
        .ok [.rule "p" [("q", .call "___" [.variable "a"] [] none)]] ∧
      Registry.ofDeclarations Literal.probe = .ok Literal.probeRegistry ∧
      compile ("$a: 1;" ++ "\n" ++ "p \x7b q: ___($a); \x7d") Literal.probe =
        .ok ⟨"p \x7b\n  q: 1;\n\x7d\n", [("a", .number (.ofInt 1))], [],
          [⟨"---", [.number (.ofInt 1)]⟩]⟩ := by
  have ha : Source.readSheet "$a: 1;" = .ok [.assign "a" (.literal (.number (.ofInt 1))) []] := rfl
  have hb : Source.readSheet "p \x7b q: ___($a); \x7d" =
      .ok [.rule "p" [("q", .call "___" [.variable "a"] [] none)]] := rfl
  have hr := Literal.ofDeclarations_probe
  refine ⟨ha, hb, hr, (compile_append _ _ _ _ _ _ ha hb hr).2.2.trans ?_⟩
  simp only [Session.runBoth, Session.runSource, ha, hb]
  rfl

end SassData
