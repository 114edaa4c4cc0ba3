import SassData.Proofs.Evaluation.FunctionRegistries
import SassData.Proofs.Session.SessionSteps
import SassData.Proofs.Source.ReadLiterals

/-!
# Steps of an evaluation

An evaluation puts values together only in operators and in calls; all else goes along with lists
and maps. So what is to hold of a value is asked of its literals and of these steps, and a step that
the evaluation does not come to is not asked.
-/

namespace SassData

set_option autoImplicit false

/-! ## Results -/

section

variable {α β : Type} {Q : α → Prop} {R : β → Prop}

def Outcome.Ensures (Q : α → Prop) (x : Outcome α) : Prop := ∀ a, x = .ok a → Q a

namespace Outcome

theorem ensures_ok {a : α} (h : Q a) : Ensures Q (.ok a) := by
  rintro _ ⟨⟩
  exact h

theorem ensures_error (failure : Failure) : Ensures Q (.error failure) := by
  rintro _ ⟨⟩

theorem Ensures.bind {x : Outcome α} {f : α → Outcome β} (hx : x.Ensures Q)
    (hf : ∀ a, Q a → (f a).Ensures R) : (x >>= f).Ensures R := by
  intro b h
  obtain ⟨a, ha, hb⟩ := bind_eq_ok_iff.mp h
  exact hf a (hx a ha) b hb

theorem ensures_bind {x : Outcome α} {f : α → Outcome β} (hf : ∀ a, (f a).Ensures R) :
    (x >>= f).Ensures R := by
  intro b h
  obtain ⟨a, -, hb⟩ := bind_eq_ok_iff.mp h
  exact hf a b hb

theorem ensures_map {x : Outcome α} {f : α → β} (h : x.Ensures fun a => R (f a)) :
    (f <$> x).Ensures R := by
  cases x with
  | error failure => exact ensures_error failure
  | ok a => exact ensures_ok (h a rfl)

end Outcome

def Traced.Ensures (Q : α → Prop) (m : Traced α) : Prop :=
  ∀ trace a after, m trace = .ok (a, after) → Q a

namespace Traced

theorem ensures_pure {a : α} (h : Q a) : Ensures Q (pure a) := by
  rintro trace _ _ ⟨⟩
  exact h

theorem ensures_throw (failure : Failure) : Ensures Q (throw failure) := by
  rintro trace _ _ ⟨⟩

theorem Ensures.bind {m : Traced α} {k : α → Traced β} (hm : m.Ensures Q)
    (hk : ∀ a, Q a → (k a).Ensures R) : (m >>= k).Ensures R := by
  intro trace b after h
  obtain ⟨a, middle, ha, hb⟩ := bind_eq_ok_iff.mp h
  exact hk a (hm trace a middle ha) middle b after hb

theorem ensures_bind {m : Traced α} {k : α → Traced β} (hk : ∀ a, (k a).Ensures R) :
    (m >>= k).Ensures R := by
  intro trace b after h
  obtain ⟨a, middle, -, hb⟩ := bind_eq_ok_iff.mp h
  exact hk a middle b after hb

theorem ensures_lift {x : Outcome α} (h : x.Ensures Q) : Ensures Q (liftM x) := by
  intro trace a after ha
  exact h a (lift_eq_ok_iff.mp ha).1

end Traced

end

def Traced.Gives {α : Type} (m : Traced α) (a : α) : Prop :=
  ∃ trace after, m trace = .ok (a, after)

theorem Traced.Ensures.gives {α : Type} {Q : α → Prop} {m : Traced α} (h : m.Ensures Q) :
    m.Ensures fun a => Q a ∧ m.Gives a :=
  fun trace a after ha => ⟨h trace a after ha, trace, after, ha⟩

/-! ## Values in names, lists and maps -/

structure Value.IsPartwise (P : Value → Prop) : Prop where
  null : P .null
  list_iff : ∀ {items separator bracketed},
    P (.list items separator bracketed) ↔ ∀ v ∈ items, P v
  map_iff : ∀ {pairs}, P (.map pairs) ↔ ∀ pair ∈ pairs, P pair.1 ∧ P pair.2

variable {P : Value → Prop}

theorem Value.IsPartwise.items (hP : IsPartwise P) {v : Value} (h : P v) :
    ∀ item ∈ v.items, P item := by
  have hone : ∀ item ∈ [v], P item := List.forall_mem_singleton.mpr h
  cases v with
  | list items separator bracketed => exact hP.list_iff.mp h
  | map pairs =>
    intro item hi
    obtain ⟨pair, hm, rfl⟩ := List.mem_map.mp hi
    obtain ⟨hk, hv⟩ := hP.map_iff.mp h pair hm
    exact hP.list_iff.mpr (List.forall_mem_cons.mpr ⟨hk, List.forall_mem_singleton.mpr hv⟩)
  | null | bool _ | number _ | color _ | string _ | custom _ _ => exact hone

theorem Value.IsPartwise.and {Q : Value → Prop} (hP : IsPartwise P) (hQ : IsPartwise Q) :
    IsPartwise fun v => P v ∧ Q v where
  null := ⟨hP.null, hQ.null⟩
  list_iff := by
    intro items separator bracketed
    rw [hP.list_iff, hQ.list_iff]
    exact forall₂_and.symm
  map_iff := by
    intro pairs
    rw [hP.map_iff, hQ.map_iff]
    constructor
    · rintro ⟨hp, hq⟩ pair hm
      exact ⟨⟨(hp pair hm).1, (hq pair hm).1⟩, (hp pair hm).2, (hq pair hm).2⟩
    · intro h
      exact ⟨fun pair hm => ⟨(h pair hm).1.1, (h pair hm).2.1⟩,
        fun pair hm => ⟨(h pair hm).1.2, (h pair hm).2.2⟩⟩

/-- Single values keep the property when they are held. -/
structure Value.HoldsOn (P : Value → Prop) : Prop where
  number : ∀ n count, P (.number n) → P ((Value.number n).hold count).1
  color : ∀ c count, P (.color c) → P ((Value.color c).hold count).1
  custom : ∀ text identity count, P (.custom text identity) →
    P ((Value.custom text identity).hold count).1

mutual

/-- What single values keep when they are held, lists and maps keep. -/
theorem Value.IsPartwise.hold (hP : IsPartwise P) (hs : HoldsOn P) (v : Value) (count : Nat)
    (h : P v) : P (v.hold count).1 := by
  match v with
  | .null | .bool _ | .string _ => exact h
  | .number n => exact hs.number n count h
  | .color c => exact hs.color c count h
  | .custom text identity => exact hs.custom text identity count h
  | .list items separator bracketed =>
    exact hP.list_iff.mpr (hP.holdItems hs items count (hP.list_iff.mp h))
  | .map pairs => exact hP.map_iff.mpr (hP.holdPairs hs pairs count (hP.map_iff.mp h))

theorem Value.IsPartwise.holdItems (hP : IsPartwise P) (hs : HoldsOn P) (items : List Value)
    (count : Nat) (h : ∀ v ∈ items, P v) : ∀ v ∈ (Value.holdItems count items).1, P v := by
  match items with
  | [] => exact h
  | item :: rest =>
    obtain ⟨hitem, hrest⟩ := List.forall_mem_cons.mp h
    exact List.forall_mem_cons.mpr ⟨hP.hold hs item count hitem, hP.holdItems hs rest _ hrest⟩

theorem Value.IsPartwise.holdPairs (hP : IsPartwise P) (hs : HoldsOn P)
    (pairs : List (Value × Value)) (count : Nat) (h : ∀ pair ∈ pairs, P pair.1 ∧ P pair.2) :
    ∀ pair ∈ (Value.holdPairs count pairs).1, P pair.1 ∧ P pair.2 := by
  match pairs with
  | [] => exact h
  | (key, v) :: rest =>
    obtain ⟨⟨hkey, hv⟩, hrest⟩ := List.forall_mem_cons.mp h
    exact List.forall_mem_cons.mpr
      ⟨⟨hP.hold hs key count hkey, hP.hold hs v _ hv⟩, hP.holdPairs hs rest _ hrest⟩

end

def Named.ValuesAre (P : Value → Prop) (names : Named Value) : Prop := ∀ pair ∈ names, P pair.2

namespace Named

variable {names : Named Value} {name : String} {v : Value}

theorem ValuesAre.put (h : names.ValuesAre P) (hv : P v) : (names.put name v).ValuesAre P := by
  induction names with
  | nil => exact List.forall_mem_singleton.mpr hv
  | cons entry rest ih =>
    obtain ⟨hentry, hrest⟩ := List.forall_mem_cons.mp h
    rw [Named.put]
    split
    · exact List.forall_mem_cons.mpr ⟨hv, hrest⟩
    · exact List.forall_mem_cons.mpr ⟨hentry, ih hrest⟩

theorem ValuesAre.get? (h : names.ValuesAre P) (hv : names.get? name = some v) : P v := by
  induction names with
  | nil => cases hv
  | cons entry rest ih =>
    obtain ⟨hentry, hrest⟩ := List.forall_mem_cons.mp h
    rw [Named.get?] at hv
    split at hv
    · cases hv
      exact hentry
    · exact ih hrest hv

theorem ValuesAre.remove (h : names.ValuesAre P) : (names.remove name).ValuesAre P :=
  fun pair hp => h pair (List.mem_filter.mp hp).1

end Named

/-! ## Calls -/

namespace Signature

theorem bindFrom_ensures {function : String} {parameters : List Parameter}
    {positional : List Value} {keywords : Named Value} {slots : List (Option Value)}
    {rest : List Value} (hpositional : ∀ v ∈ positional, P v) (hkeywords : keywords.ValuesAre P)
    (hslots : ∀ slot ∈ slots, ∀ v, slot = some v → P v) (hrest : ∀ v ∈ rest, P v) :
    (bindFrom function parameters positional keywords slots rest).Ensures fun binding =>
      (∀ slot ∈ binding.slots, ∀ v, slot = some v → P v) ∧ ∀ v ∈ binding.rest, P v := by
  have hfilled {slots : List (Option Value)} (h : ∀ slot ∈ slots, ∀ v, slot = some v → P v)
      {v : Value} (hv : P v) : ∀ slot ∈ some v :: slots, ∀ w, slot = some w → P w := by
    refine List.forall_mem_cons.mpr ⟨?_, h⟩
    rintro _ ⟨⟩
    exact hv
  induction parameters generalizing positional keywords slots rest with
  | nil =>
    rcases positional with _ | ⟨v, positional⟩
    · rcases keywords with _ | ⟨keyword, keywords⟩
      · refine Outcome.ensures_ok ⟨fun slot hs => ?_, hrest⟩
        exact hslots slot (List.mem_reverse.mp hs)
      · exact Outcome.ensures_error _
    · exact Outcome.ensures_error _
  | cons p parameters ih =>
    cases hp : p.isRest with
    | true =>
      simp only [bindFrom, hp, if_true]
      have hall := List.forall_mem_append.mpr ⟨hrest, hpositional⟩
      exact ih (List.forall_mem_nil _) hkeywords hslots hall
    | false =>
      simp only [bindFrom, hp, Bool.false_eq_true, if_false]
      rcases positional with _ | ⟨v, positional⟩
      · cases hk : keywords.get? p.name with
        | some v =>
          have hslots := hfilled hslots (hkeywords.get? hk)
          exact ih (List.forall_mem_nil _) hkeywords.remove hslots hrest
        | none =>
          cases p.default with
          | some e =>
            -- The slot stays empty until the default is evaluated, so it has no value yet.
            have hempty : ∀ v, (none : Option Value) = some v → P v := by
              rintro _ ⟨⟩
            have hslots := List.forall_mem_cons.mpr ⟨hempty, hslots⟩
            exact ih (List.forall_mem_nil _) hkeywords hslots hrest
          | none => exact Outcome.ensures_error _
      · obtain ⟨hv, hpositional⟩ := List.forall_mem_cons.mp hpositional
        cases keywords.get? p.name with
        | some w => exact Outcome.ensures_error _
        | none => exact ih hpositional hkeywords (hfilled hslots hv) hrest

theorem bind_ensures {s : Signature} {positional : List Value} {keywords : Named Value}
    (hpositional : ∀ v ∈ positional, P v) (hkeywords : keywords.ValuesAre P) :
    (s.bind positional keywords).Ensures fun binding =>
      (∀ slot ∈ binding.slots, ∀ v, slot = some v → P v) ∧ ∀ v ∈ binding.rest, P v := by
  have hslots : ∀ slot ∈ ([] : List (Option Value)), ∀ v, slot = some v → P v :=
    List.forall_mem_nil _
  exact bindFrom_ensures hpositional hkeywords hslots (List.forall_mem_nil _)

end Signature

namespace Evaluation

variable {scope : Scope} {default : Expr → Traced Value}

theorem fillSlots_ensures {parameters : List Parameter}
    (hdefault : ∀ p ∈ parameters, ∀ e, p.default = some e → (default e).Ensures P)
    {slots : List (Option Value)} (hslots : ∀ slot ∈ slots, ∀ v, slot = some v → P v) :
    (fillSlots default slots parameters).Ensures fun values => ∀ v ∈ values, P v := by
  induction slots generalizing parameters with
  | nil => exact Traced.ensures_pure (List.forall_mem_nil _)
  | cons slot slots ih =>
    obtain ⟨hslot, hslots⟩ := List.forall_mem_cons.mp hslots
    rcases parameters with _ | ⟨p, parameters⟩
    · cases slot <;> exact Traced.ensures_pure (List.forall_mem_nil _)
    obtain ⟨hp, hparameters⟩ := List.forall_mem_cons.mp hdefault
    have hrest (v : Value) (hv : P v) := (ih hparameters hslots).bind fun values hvalues =>
      Traced.ensures_pure (Q := fun values => ∀ v ∈ values, P v)
        (List.forall_mem_cons.mpr ⟨hv, hvalues⟩)
    cases slot with
    | some v => exact hrest v (hslot v rfl)
    | none =>
      simp only [fillSlots]
      cases hd : p.default with
      | some e => exact (hp e hd).bind hrest
      | none => exact (Traced.ensures_throw _).bind hrest

theorem spread_valuesAre (hP : Value.IsPartwise P) {positional : List Value}
    {keywords : Named Value} {v : Value} (hpositional : ∀ v ∈ positional, P v)
    (hkeywords : keywords.ValuesAre P) (hv : P v) :
    (∀ w ∈ (spread positional keywords (some v)).1, P w) ∧
      (spread positional keywords (some v)).2.ValuesAre P := by
  have hitems := hP.items hv
  cases v with
  | map pairs =>
    refine ⟨hpositional, ?_⟩
    have hpairs := hP.map_iff.mp hv
    simp only [spread]
    clear hv hitems
    induction pairs generalizing keywords with
    | nil => exact hkeywords
    | cons pair pairs ih =>
      obtain ⟨hpair, hpairs⟩ := List.forall_mem_cons.mp hpairs
      exact ih (hkeywords.put hpair.2) hpairs
  | _ => exact ⟨List.forall_mem_append.mpr ⟨hpositional, hitems⟩, hkeywords⟩

def prepare (default : Expr → Traced Value) (f : Function) (positional : List Value)
    (keywords : Named Value) : Traced (List Value) := do
  let binding ← f.signature.bind positional keywords
  let fixed := f.signature.parameters.filter (!·.isRest)
  let values ← fillSlots default binding.slots fixed
  let hasRest := f.signature.parameters.any Parameter.isRest
  return if hasRest then values ++ [.list binding.rest .comma false] else values

theorem call_of_find? {name : String} {f : Function} (hf : scope.functions.find? name = some f)
    (positional : List Value) (keywords : Named Value) :
    call scope default name positional keywords =
      prepare default f positional keywords >>= invoke f := by
  simp only [call, hf, prepare, bind_assoc, pure_bind]

theorem prepare_ensures (hP : Value.IsPartwise P) {f : Function}
    (hdefault : ∀ p ∈ f.signature.parameters, ∀ e, p.default = some e → (default e).Ensures P)
    {positional : List Value} {keywords : Named Value} (hpositional : ∀ v ∈ positional, P v)
    (hkeywords : keywords.ValuesAre P) :
    (prepare default f positional keywords).Ensures fun values => ∀ v ∈ values, P v := by
  have hfixed : ∀ p ∈ f.signature.parameters.filter (!·.isRest), ∀ e,
      p.default = some e → (default e).Ensures P :=
    fun p hp => hdefault p (List.mem_filter.mp hp).1
  refine (Traced.ensures_lift (Signature.bind_ensures hpositional hkeywords)).bind
    fun binding hbinding => ?_
  refine (fillSlots_ensures hfixed hbinding.1).bind fun values hvalues => Traced.ensures_pure ?_
  split
  · have hlist : P (.list binding.rest .comma false) := hP.list_iff.mpr hbinding.2
    exact List.forall_mem_append.mpr ⟨hvalues, List.forall_mem_singleton.mpr hlist⟩
  · exact hvalues

/-! ## Steps -/

/-- A point of an evaluation where a value is made from others. -/
inductive Step
  | unary (op : UnaryOp) (a : Value)
  | binary (op : BinaryOp) (a b : Value)
  | plain (function : String) (arguments : List Value)
  | invoke (f : Function) (arguments : List Value)

section

variable (scope : Scope) (default : Expr → Traced Value) (step : Step)

def CallTakes (name : String) (positional : List Value) (keywords : Named Value) : Prop :=
  match scope.functions.find? name with
  | none => step = .plain name positional
  | some f => ∃ arguments, (prepare default f positional keywords).Gives arguments ∧
    step = .invoke f arguments

mutual

/-- The step is one of those of the evaluation of an expression. An operand that is not needed makes
no step. -/
def Takes : Expr → Prop
  | .literal _ | .variable _ => False
  | .list items _ _ => ItemsTake items
  | .map pairs => PairsTake pairs
  | .unary op e => Takes e ∨ ∃ a, (evaluateWith scope default e).Gives a ∧ step = .unary op a
  | .binary .and left right =>
    Takes left ∨ ∃ a, (evaluateWith scope default left).Gives a ∧ a.isTruthy = true ∧ Takes right
  | .binary .or left right =>
    Takes left ∨ ∃ a, (evaluateWith scope default left).Gives a ∧ a.isTruthy = false ∧ Takes right
  | .binary op left right =>
    Takes left ∨ Takes right ∨ ∃ a b, (evaluateWith scope default left).Gives a ∧
      (evaluateWith scope default right).Gives b ∧ step = .binary op a b
  | .call name arguments keywords none =>
    ItemsTake arguments ∨ KeywordsTake keywords ∨ ∃ positional names,
      (evaluateItems scope default arguments).Gives positional ∧
        (evaluateKeywords scope default [] keywords).Gives names ∧
          CallTakes scope default step name positional names
  | .call name arguments keywords (some rest) =>
    ItemsTake arguments ∨ KeywordsTake keywords ∨ Takes rest ∨ ∃ positional names v,
      (evaluateItems scope default arguments).Gives positional ∧
        (evaluateKeywords scope default [] keywords).Gives names ∧
          (evaluateWith scope default rest).Gives v ∧
            CallTakes scope default step name (spread positional names (some v)).1
              (spread positional names (some v)).2

def ItemsTake : List Expr → Prop
  | [] => False
  | e :: rest => Takes e ∨ ItemsTake rest

def PairsTake : List (Expr × Expr) → Prop
  | [] => False
  | (key, value) :: rest => Takes key ∨ Takes value ∨ PairsTake rest

def KeywordsTake : List (String × Expr) → Prop
  | [] => False
  | (_, e) :: rest => Takes e ∨ KeywordsTake rest

end

end

/-- Leaves and steps with their properties keep one of values: what a step makes has it if all that
the step is given does. -/
structure Grounds (P : Value → Prop) (L : Leaf → Prop) (S : Step → Prop) (scope : Scope)
    (default : Expr → Traced Value) : Prop where
  partwise : Value.IsPartwise P
  literal : ∀ v, L (.value v) → P v
  assigned : scope.assigned.ValuesAre P
  unary : ∀ op a, S (.unary op a) → P a → P (Operation.applyUnary op a)
  binary : ∀ op a b, S (.binary op a b) → P a → P b → (Operation.apply op a b).Ensures P
  plain : ∀ name arguments, L (.function name) → S (.plain name arguments) →
    (∀ v ∈ arguments, P v) →
    P (.string (name ++ "(" ++ ", ".intercalate (arguments.map Value.css) ++ ")"))
  invoke : ∀ name f, scope.functions.find? name = some f → ∀ arguments,
    S (.invoke f arguments) → (∀ v ∈ arguments, P v) → ∀ v,
    f.body arguments >>= Reply.awaited = .ok (.value v) → P v
  default : ∀ name f, scope.functions.find? name = some f → ∀ p ∈ f.signature.parameters,
    ∀ e, p.default = some e → (default e).Ensures P

variable {L : Leaf → Prop} {S : Step → Prop}

theorem invoke_ensures {Q : Value → Prop} {f : Function} {arguments : List Value}
    (h : ∀ v, f.body arguments >>= Reply.awaited = .ok (.value v) → Q v) :
    (invoke f arguments).Ensures Q := by
  intro trace v after hv
  rw [invoke_apply] at hv
  split at hv
  · next hw =>
    cases hv
    exact h v hw
  · cases hv
  · cases hv

theorem call_ensures (h : Grounds P L S scope default) {name : String} (hname : L (.function name))
    {positional : List Value} {keywords : Named Value}
    (hS : ∀ step, CallTakes scope default step name positional keywords → S step)
    (hpositional : ∀ v ∈ positional, P v) (hkeywords : keywords.ValuesAre P) :
    (call scope default name positional keywords).Ensures P := by
  simp only [CallTakes] at hS
  cases hf : scope.functions.find? name with
  | none =>
    simp only [hf] at hS
    simp only [call, hf]
    split
    · exact Traced.ensures_pure (h.plain _ _ hname (hS _ rfl) hpositional)
    · exact Traced.ensures_throw _
  | some f =>
    simp only [hf] at hS
    rw [call_of_find? hf]
    have hprepare := prepare_ensures h.partwise (h.default name f hf) hpositional hkeywords
    exact hprepare.gives.bind fun arguments ⟨ha, hgives⟩ =>
      invoke_ensures (h.invoke name f hf arguments (hS _ ⟨arguments, hgives, rfl⟩) ha)

mutual

/-- An evaluation all of whose leaves and steps are such comes to a value with the property. -/
theorem ensures_of_takes (h : Grounds P L S scope default) (e : Expr) (he : e.LeavesAre L)
    (hS : ∀ step, Takes scope default step e → S step) :
    (evaluateWith scope default e).Ensures P := by
  match e with
  | .literal v =>
    simp only [evaluateWith]
    exact Traced.ensures_pure (h.literal v he)
  | .variable name =>
    simp only [evaluateWith]
    split
    · next v hv => exact Traced.ensures_pure (h.assigned.get? hv)
    · exact Traced.ensures_throw _
  | .list items separator bracketed =>
    simp only [evaluateWith]
    exact (items_ensures_of_takes h items he hS).bind fun vs hvs =>
      Traced.ensures_pure (h.partwise.list_iff.mpr hvs)
  | .map pairs =>
    simp only [evaluateWith]
    exact (pairs_ensures_of_takes h [] nofun pairs he hS).bind fun vs hvs =>
      Traced.ensures_pure (h.partwise.map_iff.mpr hvs)
  | .unary op e =>
    simp only [evaluateWith]
    have hoperand := ensures_of_takes h e he fun step ht => hS step (Or.inl ht)
    exact hoperand.gives.bind fun a ⟨ha, hgives⟩ =>
      Traced.ensures_pure (h.unary op a (hS _ (Or.inr ⟨a, hgives, rfl⟩)) ha)
  | .binary op left right =>
    -- Only `and` and `or` may leave the right operand alone.
    cases op with
    | and =>
      have hleft := ensures_of_takes h left he.1 fun step ht => hS step (Or.inl ht)
      simp only [evaluateWith]
      refine hleft.gives.bind fun a ⟨ha, hgives⟩ => ?_
      split
      · next ht =>
        exact ensures_of_takes h right he.2 fun step hr => hS step (Or.inr ⟨a, hgives, ht, hr⟩)
      · exact Traced.ensures_pure ha
    | or =>
      have hleft := ensures_of_takes h left he.1 fun step ht => hS step (Or.inl ht)
      simp only [evaluateWith]
      refine hleft.gives.bind fun a ⟨ha, hgives⟩ => ?_
      split
      · exact Traced.ensures_pure ha
      · next ht =>
        have ht := Bool.eq_false_iff.mpr ht
        exact ensures_of_takes h right he.2 fun step hr => hS step (Or.inr ⟨a, hgives, ht, hr⟩)
    | _ =>
      have hleft := ensures_of_takes h left he.1 fun step ht => hS step (Or.inl ht)
      have hright := ensures_of_takes h right he.2 fun step ht => hS step (Or.inr (Or.inl ht))
      simp only [evaluateWith]
      exact hleft.gives.bind fun a ⟨ha, hl⟩ => hright.gives.bind fun b ⟨hb, hr⟩ =>
        Traced.ensures_lift
          (h.binary _ a b (hS _ (Or.inr (Or.inr ⟨a, b, hl, hr, rfl⟩))) ha hb)
  | .call name arguments keywords none =>
    have hitems := items_ensures_of_takes h arguments he.2.1 fun step ht => hS step (Or.inl ht)
    have hkeywords := keywords_ensures_of_takes h [] nofun keywords he.2.2 fun step ht =>
      hS step (Or.inr (Or.inl ht))
    simp only [evaluateWith]
    exact hitems.gives.bind fun vs ⟨hvs, hi⟩ => hkeywords.gives.bind fun names ⟨hnames, hk⟩ =>
      call_ensures h he.1
        (fun step ht => hS step (Or.inr (Or.inr ⟨vs, names, hi, hk, ht⟩))) hvs hnames
  | .call name arguments keywords (some rest) =>
    have hitems := items_ensures_of_takes h arguments he.2.1 fun step ht => hS step (Or.inl ht)
    have hkeywords := keywords_ensures_of_takes h [] nofun keywords he.2.2.1 fun step ht =>
      hS step (Or.inr (Or.inl ht))
    have hrest := ensures_of_takes h rest he.2.2.2 fun step ht =>
      hS step (Or.inr (Or.inr (Or.inl ht)))
    simp only [evaluateWith]
    refine hitems.gives.bind fun vs ⟨hvs, hi⟩ => hkeywords.gives.bind fun names ⟨hnames, hk⟩ =>
      hrest.gives.bind fun v ⟨hv, hr⟩ => ?_
    obtain ⟨hpositional, hnamed⟩ := spread_valuesAre h.partwise hvs hnames hv
    exact call_ensures h he.1
      (fun step ht => hS step (Or.inr (Or.inr (Or.inr ⟨vs, names, v, hi, hk, hr, ht⟩))))
      hpositional hnamed

theorem items_ensures_of_takes (h : Grounds P L S scope default) (es : List Expr)
    (hes : Expr.ItemLeavesAre L es) (hS : ∀ step, ItemsTake scope default step es → S step) :
    (evaluateItems scope default es).Ensures fun vs => ∀ v ∈ vs, P v := by
  match es with
  | [] => exact Traced.ensures_pure nofun
  | e :: rest =>
    have hfirst := ensures_of_takes h e hes.1 fun step ht => hS step (Or.inl ht)
    have hrest := items_ensures_of_takes h rest hes.2 fun step ht => hS step (Or.inr ht)
    simp only [evaluateItems]
    exact hfirst.bind fun v hv => hrest.bind fun vs hvs =>
      Traced.ensures_pure (List.forall_mem_cons.mpr ⟨hv, hvs⟩)

theorem pairs_ensures_of_takes (h : Grounds P L S scope default)
    (before : List (Value × Value)) (hbefore : ∀ pair ∈ before, P pair.1 ∧ P pair.2)
    (pairs : List (Expr × Expr)) (hpairs : Expr.PairLeavesAre L pairs)
    (hS : ∀ step, PairsTake scope default step pairs → S step) :
    (evaluatePairs scope default before pairs).Ensures fun vs =>
      ∀ pair ∈ vs, P pair.1 ∧ P pair.2 := by
  match pairs with
  | [] =>
    simp only [evaluatePairs]
    exact Traced.ensures_pure hbefore
  | (key, value) :: rest =>
    have hkey := ensures_of_takes h key hpairs.1 fun step ht => hS step (Or.inl ht)
    have hvalue := ensures_of_takes h value hpairs.2.1 fun step ht => hS step (Or.inr (Or.inl ht))
    simp only [evaluatePairs]
    refine hkey.bind fun k hk => Traced.ensures_bind fun found => ?_
    have hrest := hvalue.bind fun v hv =>
      pairs_ensures_of_takes h (before ++ [(k, v)])
        (List.forall_mem_append.mpr ⟨hbefore, List.forall_mem_singleton.mpr ⟨hk, hv⟩⟩) rest
        hpairs.2.2 fun step ht => hS step (Or.inr (Or.inr ht))
    split
    · exact Traced.ensures_bind fun _ => hrest
    · exact hrest

theorem keywords_ensures_of_takes (h : Grounds P L S scope default) (before : Named Value)
    (hbefore : before.ValuesAre P) (keywords : List (String × Expr))
    (hkeywords : Expr.KeywordLeavesAre L keywords)
    (hS : ∀ step, KeywordsTake scope default step keywords → S step) :
    (evaluateKeywords scope default before keywords).Ensures (Named.ValuesAre P) := by
  match keywords with
  | [] =>
    simp only [evaluateKeywords]
    exact Traced.ensures_pure hbefore
  | (name, e) :: rest =>
    have hvalue := ensures_of_takes h e hkeywords.1 fun step ht => hS step (Or.inl ht)
    simp only [evaluateKeywords]
    exact hvalue.bind fun v hv =>
      keywords_ensures_of_takes h (Named.put name v before) (hbefore.put hv) rest hkeywords.2
        fun step ht => hS step (Or.inr ht)

end

end Evaluation

end SassData
