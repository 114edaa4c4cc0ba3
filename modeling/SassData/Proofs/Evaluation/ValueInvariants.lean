import SassData.Proofs.Evaluation.EvaluationSteps

/-!
# What holds of all values

A property that operators keep and that goes along with lists and maps holds of every value of a
session, if it holds of the literals and of what the functions hand back. Failures take nothing
from it: a style sheet that fails leaves what was set before.
-/

namespace SassData

set_option autoImplicit false

/-- A property of all that style sheets compute with, once it holds of numbers, colours and texts
that they begin with. -/
structure Value.IsInvariant (P : Value → Prop) : Prop where
  null : P .null
  list_iff : ∀ {items separator bracketed},
    P (.list items separator bracketed) ↔ ∀ v ∈ items, P v
  map_iff : ∀ {pairs}, P (.map pairs) ↔ ∀ pair ∈ pairs, P pair.1 ∧ P pair.2
  hold : ∀ {v} (count : Nat), P v → P (v.hold count).1
  unary : ∀ {op v}, P v → P (Operation.applyUnary op v)
  binary : ∀ {op a b}, P a → P b → (Operation.apply op a b).Ensures P
  plainCall : ∀ {name : String} {positional : List Value}, (∀ v ∈ positional, P v) →
    P (.string (name ++ "(" ++ ", ".intercalate (positional.map Value.css) ++ ")"))

variable {P : Value → Prop}

theorem Value.IsInvariant.isPartwise (hP : IsInvariant P) : IsPartwise P :=
  ⟨hP.null, hP.list_iff, hP.map_iff⟩

structure Function.Keeps (P : Value → Prop) (f : Function) : Prop where
  body : ∀ arguments, (∀ v ∈ arguments, P v) → ∀ v,
    f.body arguments >>= Reply.awaited = .ok (.value v) → P v
  defaults : ∀ p ∈ f.signature.parameters, ∀ e, p.default = some e → e.LiteralsAre P

structure Scope.Keeps (P : Value → Prop) (scope : Scope) : Prop where
  functions : ∀ name f, scope.functions.get? name = some f → f.Keeps P
  assigned : scope.assigned.ValuesAre P

namespace Evaluation

variable {scope : Scope} {default : Expr → Traced Value}

/-! ## Expressions -/

theorem grounds_of_isInvariant (hP : Value.IsInvariant P) (hs : scope.Keeps P)
    (hdefault : ∀ e, e.LiteralsAre P → (default e).Ensures P) :
    Grounds P (Leaf.OfValue P) (fun _ => True) scope default where
  partwise := hP.isPartwise
  literal _ hv := hv
  assigned := hs.assigned
  unary _ _ _ := hP.unary
  binary _ _ _ _ := hP.binary
  plain _ _ _ _ := hP.plainCall
  invoke _ f hf arguments _ := (hs.functions _ f hf).body arguments
  default _ f hf p hp e he := hdefault e ((hs.functions _ f hf).defaults p hp e he)

theorem evaluateWith_ensures (hP : Value.IsInvariant P) (hs : scope.Keeps P)
    (hdefault : ∀ e, e.LiteralsAre P → (default e).Ensures P) (e : Expr) (he : e.LiteralsAre P) :
    (evaluateWith scope default e).Ensures P :=
  ensures_of_takes (grounds_of_isInvariant hP hs hdefault) e he fun _ _ => trivial

theorem evaluate_ensures (hP : Value.IsInvariant P) (hs : scope.Keeps P) {e : Expr}
    (he : e.LiteralsAre P) : (evaluate scope e).Ensures P := by
  -- By induction on how deep defaults may call for defaults; at the bottom evaluation fails.
  have hdepth (n : Nat) : ∀ e, e.LiteralsAre P → (evaluateTo scope n e).Ensures P := by
    induction n with
    | zero =>
      intro e he
      exact evaluateWith_ensures hP hs (fun _ _ => Traced.ensures_throw _) e he
    | succ n ih =>
      intro e he
      exact evaluateWith_ensures hP hs ih e he
  exact hdepth _ e he

end Evaluation

/-! ## Built-in functions -/

namespace Builtin

theorem follow_partwise (hP : Value.IsPartwise P) {v : Value} (hv : P v) (keys : List Value) :
    P (follow v keys) := by
  induction keys generalizing v with
  | nil => exact hv
  | cons key keys ih =>
    cases v with
    | map pairs =>
      rw [follow]
      cases hl : Value.lookup? pairs key with
      | none => exact hP.null
      | some w =>
        obtain ⟨pair, hfind, rfl⟩ := Option.map_eq_some_iff.mp hl
        have hpair := List.mem_reverse.mp (List.mem_of_find?_eq_some hfind)
        exact ih (hP.map_iff.mp hv pair hpair).2
    | _ => exact hP.null

theorem mapGet_ensures (hP : Value.IsPartwise P) {map : Value} (hm : P map) (key keys : Value) :
    (mapGet map key keys).Ensures P := by
  cases map with
  | map pairs => exact Outcome.ensures_ok (follow_partwise hP hm _)
  | _ => exact Outcome.ensures_error _

theorem nth_ensures (hP : Value.IsPartwise P) {list : Value} (hl : P list) (index : Value) :
    (nth list index).Ensures P := by
  refine Outcome.ensures_bind fun number => Outcome.ensures_bind fun n => ?_
  have hitem {place : Int} {v : Value} (hi : Value.item? list.items place = some v) : P v := by
    rw [Value.item?] at hi
    split at hi
    · cases hi
    · exact hP.items hl v (List.mem_of_getElem? hi)
  dsimp only
  split
  · refine Outcome.ensures_bind fun _ => ?_
    split
    · next hi => exact Outcome.ensures_ok (hitem hi)
    · exact Outcome.ensures_error _
  · split
    · next hi => exact Outcome.ensures_ok (hitem hi)
    · exact Outcome.ensures_error _

/-- The functions that make their answers, not picking them from an argument, keep the property. -/
structure MakesOnly (P : Value → Prop) : Prop where
  rgb : ∀ red green blue opacity, (rgb red green blue opacity).Ensures P
  hsl : ∀ hue saturation lightness opacity, (hsl hue saturation lightness opacity).Ensures P
  integer : ∀ n, P (.number (.ofInt n))
  typeOf : ∀ v, (typeOf v).Ensures P
  unit : ∀ v, (unit v).Ensures P
  unitless : ∀ v, (unitless v).Ensures P
  quote : ∀ v, (quote v).Ensures P
  unquote : ∀ v, (unquote v).Ensures P

theorem awaited_value {x : Outcome Value} {v : Value} :
    (Reply.value <$> x) >>= Reply.awaited = .ok (.value v) ↔ x = .ok v := by
  cases x with
  | error failure => exact iff_of_false nofun nofun
  | ok w =>
    constructor
    · intro h
      cases h
      rfl
    · intro h
      cases h
      rfl

/-- What the built-in function of a name hands back, given the arguments. -/
inductive Hands (arguments : List Value) (v : Value) : String → Prop
  | rgb {name : String} (red green blue opacity : Value)
    (h : Builtin.rgb red green blue opacity = .ok v) : Hands arguments v name
  | hsl {name : String} (hue saturation lightness opacity : Value)
    (h : Builtin.hsl hue saturation lightness opacity = .ok v) : Hands arguments v name
  | mapGet (key keys : Value) (h : Builtin.mapGet (arguments.getD 0 .null) key keys = .ok v) :
    Hands arguments v "map-get"
  | nth (index : Value) (h : Builtin.nth (arguments.getD 0 .null) index = .ok v) :
    Hands arguments v "nth"
  | length (n : Int) (h : v = .number (.ofInt n)) : Hands arguments v "length"
  | typeOf (value : Value) (h : Builtin.typeOf value = .ok v) : Hands arguments v "type-of"
  | unit (h : Builtin.unit (arguments.getD 0 .null) = .ok v) : Hands arguments v "unit"
  | unitless (number : Value) (h : Builtin.unitless number = .ok v) : Hands arguments v "unitless"
  | quote (h : Builtin.quote (arguments.getD 0 .null) = .ok v) : Hands arguments v "quote"
  | unquote (h : Builtin.unquote (arguments.getD 0 .null) = .ok v) : Hands arguments v "unquote"

theorem hands_of_body {f : Function} (hf : f ∈ functions) {arguments : List Value} {v : Value}
    (hv : f.body arguments >>= Reply.awaited = .ok (.value v)) :
    Hands arguments v f.signature.name := by
  simp only [functions, List.mem_cons, List.not_mem_nil, or_false] at hf
  rcases hf with rfl | rfl | rfl | rfl | rfl | rfl | rfl | rfl | rfl | rfl | rfl | rfl
  · exact .rgb _ _ _ _ (awaited_value.mp hv)
  · exact .rgb _ _ _ _ (awaited_value.mp hv)
  · exact .hsl _ _ _ _ (awaited_value.mp hv)
  · exact .hsl _ _ _ _ (awaited_value.mp hv)
  · exact .mapGet _ _ (awaited_value.mp hv)
  · exact .nth _ (awaited_value.mp hv)
  · exact .length _ (Except.ok.inj (awaited_value.mp hv)).symm
  · exact .typeOf _ (awaited_value.mp hv)
  · exact .unit (awaited_value.mp hv)
  · exact .unitless _ (awaited_value.mp hv)
  · exact .quote (awaited_value.mp hv)
  · exact .unquote (awaited_value.mp hv)

theorem getD_keeps (hP : Value.IsPartwise P) {arguments : List Value} (ha : ∀ v ∈ arguments, P v)
    (i : Nat) : P (arguments.getD i .null) := by
  rw [List.getD_eq_getElem?_getD]
  cases hi : arguments[i]? with
  | none => exact hP.null
  | some w => exact ha w (List.mem_of_getElem? hi)

/-- Every built-in function keeps a property of all values that its own answers have. -/
theorem keeps (hP : Value.IsInvariant P) (h : MakesOnly P) {f : Function} (hf : f ∈ functions) :
    f.Keeps P := by
  constructor
  · intro arguments ha v hv
    have hfirst := getD_keeps hP.isPartwise ha 0
    have hands := hands_of_body hf hv
    generalize f.signature.name = name at hands
    cases hands with
    | rgb _ _ _ _ hv => exact h.rgb _ _ _ _ v hv
    | hsl _ _ _ _ hv => exact h.hsl _ _ _ _ v hv
    | mapGet _ _ hv => exact mapGet_ensures hP.isPartwise hfirst _ _ v hv
    | nth _ hv => exact nth_ensures hP.isPartwise hfirst _ v hv
    | length n hv => exact hv ▸ h.integer n
    | typeOf _ hv => exact h.typeOf _ v hv
    | unit hv => exact h.unit _ v hv
    | unitless _ hv => exact h.unitless _ v hv
    | quote hv => exact h.quote _ v hv
    | unquote hv => exact h.unquote _ v hv
  · intro p hp e he
    rw [default_eq hf hp he]
    exact h.integer 1

end Builtin

/-! ## Sessions -/

namespace Session

variable {s : Session}

def Keeps (P : Value → Prop) (s : Session) : Prop := Scope.Keeps P ⟨s.functions, s.assigned⟩

theorem keeps_start (hP : Value.IsInvariant P) (h : Builtin.MakesOnly P) : (start []).Keeps P where
  functions _ _ hf := Builtin.keeps hP h (Builtin.mem_of_get? hf).2
  assigned := nofun

theorem keeps_start_with (hP : Value.IsInvariant P) (h : Builtin.MakesOnly P)
    {functions : Registry} (hf : ∀ entry ∈ functions, entry.2.Keeps P) :
    (start functions).Keeps P := by
  refine ⟨fun name f hget => ?_, nofun⟩
  rcases Registry.mem_of_get?_merge hget with hbuiltin | hentry
  · exact Builtin.keeps hP h (Builtin.mem_of_get? hbuiltin).2
  · exact hf _ hentry

theorem Keeps.evaluate (hP : Value.IsInvariant P) (hs : s.Keeps P) {e : Expr}
    (he : e.LiteralsAre P) : (s.evaluate e).Ensures fun result => P result.1 := by
  rintro ⟨v, trace⟩ h
  exact Evaluation.evaluate_ensures hP hs he s.trace v trace h

theorem keeps_declarationLines {declarations : List (String × Expr)} (hs : s.Keeps P) :
    (s.declarationLines declarations).Ensures fun result => result.2.Keeps P := by
  induction declarations generalizing s with
  | nil => exact Outcome.ensures_ok hs
  | cons declaration rest ih =>
    rw [declarationLines]
    refine Outcome.ensures_bind fun first => Outcome.ensures_bind fun text => ?_
    have hrest := @ih { s with trace := first.2 } hs
    refine hrest.bind fun lines hlast => ?_
    cases text <;> exact Outcome.ensures_ok hlast

theorem Keeps.step (hP : Value.IsInvariant P) (hs : s.Keeps P) {statement : Statement}
    (hstatement : statement.LiteralsAre P) :
    (s.step statement).Ensures fun result => result.1.Keeps P := by
  cases statement with
  | assign name e flags =>
    have he : e.LiteralsAre P := hstatement e List.mem_cons_self
    simp only [Session.step]
    split
    · exact Outcome.ensures_ok hs
    · refine (hs.evaluate hP he).bind fun result hv => Outcome.ensures_ok ?_
      exact ⟨hs.functions, hs.assigned.put (hP.hold s.held hv)⟩
  | rule selector declarations =>
    exact (keeps_declarationLines hs).bind fun _ hlast => Outcome.ensures_ok hlast
  | debug e => exact Outcome.ensures_bind fun _ => Outcome.ensures_ok hs
  | error e => exact Outcome.ensures_bind fun _ => Outcome.ensures_error _

theorem Keeps.run (hP : Value.IsInvariant P) (hs : s.Keeps P) {statements : List Statement}
    (hstatements : ∀ statement ∈ statements, statement.LiteralsAre P) :
    (s.run statements).1.Keeps P := by
  induction statements generalizing s with
  | nil => exact hs
  | cons statement rest ih =>
    obtain ⟨hstatement, hrest⟩ := List.forall_mem_cons.mp hstatements
    rw [Session.run]
    split
    · exact hs
    · next next text hstep => exact ih (hs.step hP hstatement _ hstep) hrest

theorem Keeps.runSource (hP : Value.IsInvariant P) (hread : Source.OfTokens P) (hs : s.Keeps P)
    (source : String) : (s.runSource source).1.Keeps P := by
  unfold Session.runSource
  split
  · exact hs
  · next statements hr => exact hs.run hP (Source.leavesAre_of_readSheet hread.ofLeaves hr)

def runSources (s : Session) (sources : List String) : Session :=
  sources.foldl (fun s source => (s.runSource source).1) s

theorem Keeps.runSources (hP : Value.IsInvariant P) (hread : Source.OfTokens P) (hs : s.Keeps P)
    (sources : List String) : (s.runSources sources).Keeps P := by
  induction sources generalizing s with
  | nil => exact hs
  | cons source rest ih => exact ih (hs.runSource hP hread source)

end Session

end SassData
