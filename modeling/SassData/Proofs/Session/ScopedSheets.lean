import SassData.Proofs.Evaluation.VariableUse
import SassData.Proofs.Session.StuckSheets
import SassData.Proofs.Source.ReadExpressions

/-!
# Variables that are declared before they are used

A statement that declares a variable leaves it set, also where its value is null or a default that
is not needed, and nothing else adds or takes away a name. So the names that are set are told from
the statements that were run, and a style sheet whose variables are declared before they are used
never fails for want of one. Reading has made all spellings of a name the same before.
-/

namespace SassData

set_option autoImplicit false

/-! ## Names as they are read -/

theorem Text.canonicalName_canonicalName (name : String) :
    canonicalName (canonicalName name) = canonicalName name := by
  have hchar (c : Char) : (if (if c == '_' then '-' else c) == '_' then '-'
      else if c == '_' then '-' else c) = if c == '_' then '-' else c := by
    by_cases h : c = '_' <;> simp [h]
  simp only [canonicalName, String.toList_ofList, List.map_map, Function.comp_def, hchar]

def Statement.variableNames (statement : Statement) : List String :=
  statement.exprs.flatMap Expr.variableNames

namespace Source

def canonicalDemand : Demand where
  expr e := ∀ name ∈ e.variableNames, Text.canonicalName name = name
  function _ := True
  name name := Text.canonicalName name = name

theorem isClosed_canonicalDemand : canonicalDemand.IsClosed where
  null := nofun
  name h := List.forall_mem_singleton.mpr h
  unary h := h
  binary hl hr := List.forall_mem_append.mpr ⟨hl, hr⟩
  list h := Expr.forall_mem_itemVariables.mpr h
  brackets h := h
  map h := Expr.forall_mem_pairVariables.mpr h
  call {function arguments keywords spread} _ harguments hkeywords hspread := by
    have hfront := List.forall_mem_append.mpr ⟨Expr.forall_mem_itemVariables.mpr harguments,
      Expr.forall_mem_keywordVariables.mpr hkeywords⟩
    cases spread with
    | none => exact hfront
    | some e => exact List.forall_mem_append.mpr ⟨hfront, hspread e rfl⟩

theorem isMet_canonicalDemand : canonicalDemand.IsMet where
  closed := isClosed_canonicalDemand
  token _ := ⟨fun _ _ => nofun, fun _ _ => trivial,
    fun name _ => Text.canonicalName_canonicalName name⟩

theorem canonicalName_of_readSheet {text : String} {statements : List Statement}
    (h : readSheet text = .ok statements) {statement : Statement} (hm : statement ∈ statements) :
    (∀ name ∈ statement.variableNames, Text.canonicalName name = name) ∧
      ∀ name ∈ statement.declared, Text.canonicalName name = name := by
  obtain ⟨hexprs, hdeclared⟩ := isMet_canonicalDemand.readSheet h statement hm
  refine ⟨fun name hname => ?_, hdeclared⟩
  obtain ⟨e, he, hname⟩ := List.mem_flatMap.mp hname
  exact hexprs e he name hname

end Source

/-! ## Names that are set -/

/-- Names and behind them others, each once and where it first comes. -/
def joinNames (names others : List String) : List String :=
  names ++ (others.filter (· ∉ names)).eraseDups

theorem joinNames_nil (names : List String) : joinNames names [] = names := List.append_nil names

theorem joinNames_cons (names : List String) (name : String) (others : List String) :
    joinNames names (name :: others) =
      joinNames (if name ∈ names then names else names ++ [name]) others := by
  by_cases h : name ∈ names
  · simp [joinNames, h]
  · have hfilter : (others.filter (· ∉ names)).filter (fun other => !other == name) =
        others.filter (· ∉ names ++ [name]) := by
      rw [List.filter_filter]
      refine List.filter_congr fun other _ => ?_
      by_cases hn : other = name <;> simp [hn]
    rw [if_neg h, joinNames, List.filter_cons_of_pos (by simpa using h), List.eraseDups_cons,
      hfilter, joinNames, List.append_assoc, List.singleton_append]

theorem joinNames_append (names others more : List String) :
    joinNames names (others ++ more) = joinNames (joinNames names others) more := by
  induction others generalizing names with
  | nil => rw [List.nil_append, joinNames_nil]
  | cons name others ih => rw [List.cons_append, joinNames_cons, ih, joinNames_cons]

theorem mem_joinNames_iff {names others : List String} {name : String} :
    name ∈ joinNames names others ↔ name ∈ names ∨ name ∈ others := by
  by_cases h : name ∈ names <;> simp [joinNames, h]

namespace Session

variable {s next : Session}

/-- The names of the variables that are set, in the order in which they were first. -/
def names (s : Session) : List String := s.assigned.map Prod.fst

theorem mem_names_of_isSet {name : String} (h : s.isSet name = true) : name ∈ s.names := by
  rw [isSet] at h
  split at h
  · next v hv => exact Named.mem_of_get? hv
  · cases h

theorem names_put (name : String) (v : Value) :
    (Named.put name v s.assigned).map Prod.fst =
      if name ∈ s.names then s.names else s.names ++ [name] := by
  split
  · next h => exact Named.map_fst_put_of_mem h
  · next h => rw [Named.put_of_not_mem h, List.map_append, List.map_singleton, names]

theorem names_of_step {statement : Statement} {text : Option String}
    (h : s.step statement = .ok (next, text)) :
    next.names = joinNames s.names statement.declared := by
  cases statement with
  | assign name e flags =>
    rw [Statement.declared, joinNames_cons, joinNames_nil]
    rw [step] at h
    split at h
    · next hdefault =>
      cases h
      obtain ⟨-, hset⟩ := Bool.and_eq_true_iff.mp hdefault
      rw [if_pos (mem_names_of_isSet hset)]
    · obtain ⟨⟨v, trace⟩, -, h⟩ := Outcome.bind_eq_ok_iff.mp h
      cases h
      exact names_put name _
  | rule selector declarations =>
    rw [step] at h
    obtain ⟨⟨lines, last⟩, hlines, h⟩ := Outcome.bind_eq_ok_iff.mp h
    cases h
    obtain ⟨trace, rfl⟩ := exists_of_declarationLines hlines
    exact (joinNames_nil _).symm
  | debug e =>
    obtain ⟨_, -, h⟩ := Outcome.bind_eq_ok_iff.mp h
    cases h
    exact (joinNames_nil _).symm
  | error e =>
    obtain ⟨_, -, h⟩ := Outcome.bind_eq_ok_iff.mp h
    cases h

theorem names_of_run {statements : List Statement} {last : Session} {blocks : List String}
    (h : s.run statements = (last, .ok blocks)) :
    last.names = joinNames s.names (statements.flatMap Statement.declared) := by
  induction statements generalizing s blocks with
  | nil =>
    cases h
    exact (joinNames_nil _).symm
  | cons statement rest ih =>
    rw [run] at h
    split at h
    · cases h
    · next next text hstep =>
      cases hrest : next.run rest with
      | mk end' outcome =>
        rw [hrest] at h
        cases outcome with
        | error failure => cases h
        | ok more =>
          obtain rfl : end' = last := congrArg Prod.fst h
          rw [ih hrest, names_of_step hstep, List.flatMap_cons, joinNames_append]

/-- The session that a run leaves is the one in front of the statement that failed. -/
theorem exists_of_run (s : Session) (statements : List Statement) :
    ∃ before after blocks, statements = before ++ after ∧
      s.run before = ((s.run statements).1, .ok blocks) := by
  induction statements generalizing s with
  | nil => exact ⟨[], [], [], rfl, rfl⟩
  | cons statement rest ih =>
    cases hstep : s.step statement with
    | error failure =>
      refine ⟨[], statement :: rest, [], rfl, ?_⟩
      simp only [run, hstep]
    | ok result =>
      obtain ⟨next, text⟩ := result
      obtain ⟨before, after, blocks, rfl, hrun⟩ := ih next
      refine ⟨statement :: before, after, text.toList ++ blocks, rfl, ?_⟩
      simp only [run, hstep, hrun]
      rfl

/-! ## Runs that find their variables -/

theorem finds_declared? (v : Value) : (declared? v).Finds := by
  unfold declared?
  split
  · exact Outcome.finds_ok _
  · exact Outcome.finds_error nofun
  · exact Outcome.finds_error nofun
  · exact Outcome.finds_ok _

theorem finds_evaluate (hs : s.functions = Builtin.registry) {e : Expr}
    (he : ∀ name ∈ e.variableNames, name ∈ s.names) : (s.evaluate e).Finds := by
  have hscope : (⟨s.functions, s.assigned⟩ : Scope).functions = Builtin.registry := hs
  exact Evaluation.finds_evaluate hscope he s.trace

theorem finds_declarationLines (hs : s.functions = Builtin.registry)
    {declarations : List (String × Expr)}
    (h : ∀ declaration ∈ declarations, ∀ name ∈ declaration.2.variableNames, name ∈ s.names) :
    (s.declarationLines declarations).Finds := by
  induction declarations generalizing s with
  | nil => exact Outcome.finds_ok _
  | cons declaration rest ih =>
    obtain ⟨hfirst, hrest⟩ := List.forall_mem_cons.mp h
    rw [declarationLines]
    refine (finds_evaluate hs hfirst).bind fun first => ?_
    refine (finds_declared? first.1).bind fun text => ?_
    refine (@ih { s with trace := first.2 } hs hrest).bind fun lines => ?_
    cases text <;> exact Outcome.finds_ok _

theorem finds_step (hs : s.functions = Builtin.registry) {statement : Statement}
    (h : ∀ name ∈ statement.variableNames, name ∈ s.names) : (s.step statement).Finds := by
  have hexpr : ∀ e ∈ statement.exprs, ∀ name ∈ e.variableNames, name ∈ s.names :=
    fun e he name hname => h name (List.mem_flatMap.mpr ⟨e, he, hname⟩)
  cases statement with
  | assign name e flags =>
    simp only [step]
    split
    · exact Outcome.finds_ok _
    · exact (finds_evaluate hs (hexpr e List.mem_cons_self)).bind fun _ => Outcome.finds_ok _
  | rule selector declarations =>
    have hlines := finds_declarationLines hs fun declaration hd =>
      hexpr declaration.2 (List.mem_map_of_mem hd)
    exact hlines.bind fun _ => Outcome.finds_ok _
  | debug e =>
    exact (finds_evaluate hs (hexpr e List.mem_cons_self)).bind fun _ => Outcome.finds_ok _
  | error e =>
    refine (finds_evaluate hs (hexpr e List.mem_cons_self)).bind fun _ => Outcome.finds_error ?_
    rintro _ ⟨⟩

theorem finds_run (hs : s.functions = Builtin.registry) {statements : List Statement}
    (h : ∀ before statement after, statements = before ++ statement :: after →
      ∀ name ∈ statement.variableNames,
        name ∈ joinNames s.names (before.flatMap Statement.declared)) :
    (s.run statements).2.Finds := by
  induction statements generalizing s with
  | nil => exact Outcome.finds_ok _
  | cons statement rest ih =>
    have hfirst : ∀ name ∈ statement.variableNames, name ∈ s.names := by
      intro name hname
      have hmem := h [] statement rest rfl name hname
      rwa [List.flatMap_nil, joinNames_nil] at hmem
    rw [run]
    split
    · next failure hstep =>
      have hfound := finds_step hs hfirst
      rw [hstep] at hfound
      intro name hname
      cases hname
      exact hfound name rfl
    · next next text hstep =>
      refine Outcome.Finds.map (ih ((functions_of_step hstep).trans hs) ?_)
      intro before other after hsplit name hname
      have hmem := h (statement :: before) other after (congrArg (statement :: ·) hsplit) name hname
      rwa [List.flatMap_cons, joinNames_append, ← names_of_step hstep] at hmem

/-- Every variable that a statement mentions is one of these names or declared in front of the
statement, in whichever spelling. -/
def IsScoped (names : List String) (statements : List Statement) : Prop :=
  ∀ before statement after, statements = before ++ statement :: after →
    ∀ name ∈ statement.variableNames, name ∈ names ∨
      ∃ other ∈ before.flatMap Statement.declared,
        Text.canonicalName other = Text.canonicalName name

/-- A style sheet whose variables are declared before they are used does not fail for want of one.
Wherever its run stands, the variables that are set are those from the start and then those declared
so far, each once and where it first was. -/
theorem finds_runSource {source : String} {statements : List Statement}
    (hread : Source.readSheet source = .ok statements) {s : Session}
    (hs : s.functions = Builtin.registry) (hscoped : IsScoped s.names statements) :
    (∀ name, (s.runSource source).2 ≠ .error (.undefinedVariable name)) ∧
    (∀ before after middle blocks, statements = before ++ after →
      s.run before = (middle, .ok blocks) →
      middle.names = s.names ++
        ((before.flatMap Statement.declared).filter (· ∉ s.names)).eraseDups) ∧
    ∃ before after blocks, statements = before ++ after ∧
      s.run before = ((s.runSource source).1, .ok blocks) := by
  have hcanonical {statement : Statement} (hm : statement ∈ statements) :=
    Source.canonicalName_of_readSheet hread hm
  have hfinds : (s.run statements).2.Finds := by
    refine finds_run hs fun before statement after hsplit name hname => ?_
    rw [mem_joinNames_iff]
    refine (hscoped before statement after hsplit name hname).imp_right ?_
    rintro ⟨other, hother, hsame⟩
    obtain ⟨declaring, hm, hdeclared⟩ := List.mem_flatMap.mp hother
    have hbefore : declaring ∈ statements := hsplit ▸ List.mem_append_left _ hm
    have hhere : statement ∈ statements := by simp [hsplit]
    rw [(hcanonical hbefore).2 other hdeclared, (hcanonical hhere).1 name hname] at hsame
    exact hsame ▸ hother
  have hrun : s.runSource source =
      ((s.run statements).1, (s.run statements).2.map sheetText) := by
    simp only [runSource, hread]
  rw [hrun]
  exact ⟨hfinds.map, fun before after middle blocks _ h => names_of_run h,
    exists_of_run s statements⟩

/-- A null, a default that takes its place under the other spelling, and a use of the first. -/
theorem finds_runSource_respelled :
    ∃ statements, Source.readSheet "$a_b: null; $a-b: 1 !default; c \x7b d: $a_b; \x7d" =
        .ok statements ∧
      (start []).functions = Builtin.registry ∧ IsScoped (start []).names statements ∧
      (∀ name, ((start []).runSource
        "$a_b: null; $a-b: 1 !default; c \x7b d: $a_b; \x7d").2 ≠
          .error (.undefinedVariable name)) ∧
      ∃ middle, (start []).run statements = (middle, .ok ["c \x7b\n  d: 1;\n\x7d"]) ∧
        middle.names = ["a-b"] := by
  have hread : Source.readSheet "$a_b: null; $a-b: 1 !default; c \x7b d: $a_b; \x7d" =
      .ok [.assign "a-b" (.literal .null) [],
        .assign "a-b" (.literal (.number (.ofInt 1))) [.default],
        .rule "c" [("d", .variable "a-b")]] := rfl
  have hscoped : IsScoped (start []).names [.assign "a-b" (.literal .null) [],
      .assign "a-b" (.literal (.number (.ofInt 1))) [.default],
      .rule "c" [("d", .variable "a-b")]] := by
    intro before statement after h name hname
    rcases before with _ | ⟨first, _ | ⟨second, _ | ⟨third, before⟩⟩⟩
    · cases h
      cases hname
    · cases h
      cases hname
    · cases h
      cases List.mem_singleton.mp hname
      exact Or.inr ⟨"a-b", List.mem_cons_self, rfl⟩
    · cases before <;> cases h
  obtain ⟨hfinds, hnames, -⟩ := finds_runSource hread rfl hscoped
  exact ⟨_, hread, rfl, hscoped, hfinds, _, rfl, hnames _ [] _ _ (List.append_nil _).symm rfl⟩

end Session

end SassData
