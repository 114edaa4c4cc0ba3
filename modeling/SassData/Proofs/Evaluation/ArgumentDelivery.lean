import Mathlib.Data.List.Forall2
import SassData.Proofs.Evaluation.ArgumentBinding
import SassData.Proofs.Evaluation.ForeignFailures
import SassData.Proofs.Evaluation.FunctionRegistries
import SassData.Proofs.Evaluation.RelatedScopes

/-!
# What of a call reaches its function

The arguments of a call are sorted when it is read, put under names when they are evaluated and
filled into parameters when they are bound. Binding loses nothing. What gets lost is lost before:
the first of two values under one name, and every spread argument that another one follows.
-/

namespace SassData

set_option autoImplicit false

/-! ## Results without traces -/

namespace Traced

variable {α β : Type}

/-- The two have the same results from any traces, which take no part in them. -/
def SameResults (m n : Traced α) : Prop :=
  ∀ trace other, (m trace).map Prod.fst = (n other).map Prod.fst

theorem isCongruence_sameResults : IsCongruence fun _ => SameResults where
  pure _ _ _ := rfl
  throw _ _ _ := rfl
  bind {α β m n k l} hm hk := by
    intro trace other
    have hmn := hm trace other
    rw [bind_apply, bind_apply]
    cases hleft : m trace with
    | error failure =>
      rw [hleft] at hmn
      cases hright : n other with
      | error failure' =>
        rw [hright] at hmn
        cases hmn
        rfl
      | ok result =>
        rw [hright] at hmn
        cases hmn
    | ok result =>
      rw [hleft] at hmn
      cases hright : n other with
      | error failure =>
        rw [hright] at hmn
        cases hmn
      | ok result' =>
        rw [hright] at hmn
        obtain ⟨a, middle⟩ := result
        obtain ⟨b, middle'⟩ := result'
        obtain rfl : a = b := Except.ok.inj hmn
        exact hk a middle middle'

def IsBlind (m : Traced α) : Prop := m.SameResults m

variable {m : Traced α} {k : α → Traced β} {a b : α}

theorem isBlind_pure : IsBlind (pure a) := fun _ _ => rfl

theorem IsBlind.bind (hm : m.IsBlind) (hk : ∀ a, (k a).IsBlind) : (m >>= k).IsBlind :=
  isCongruence_sameResults.bind hm hk

theorem IsBlind.exists_apply (hm : m.IsBlind) (h : m.Gives a) (trace : List Invocation) :
    ∃ after, m trace = .ok (a, after) := by
  obtain ⟨first, last, hfirst⟩ := h
  have hsame := hm first trace
  rw [hfirst] at hsame
  cases htrace : m trace with
  | error failure =>
    rw [htrace] at hsame
    cases hsame
  | ok result =>
    rw [htrace] at hsame
    obtain ⟨b, after⟩ := result
    obtain rfl : a = b := Except.ok.inj hsame
    exact ⟨after, rfl⟩

theorem IsBlind.unique (hm : m.IsBlind) (ha : m.Gives a) (hb : m.Gives b) : a = b := by
  obtain ⟨trace, after, hb⟩ := hb
  obtain ⟨last, ha⟩ := hm.exists_apply ha trace
  rw [ha] at hb
  exact (Prod.mk.inj (Except.ok.inj hb)).1

theorem bind_of_ok {trace middle : List Invocation} (h : m trace = .ok (a, middle)) :
    (m >>= k) trace = k a middle := by
  rw [bind_apply, h]
  rfl

theorem gives_pure_iff : (pure a : Traced α).Gives b ↔ b = a := by
  constructor
  · rintro ⟨trace, after, h⟩
    cases h
    rfl
  · rintro rfl
    exact ⟨[], [], rfl⟩

theorem gives_lift_iff {x : Outcome α} : (liftM x : Traced α).Gives a ↔ x = .ok a := by
  constructor
  · rintro ⟨trace, after, h⟩
    exact (lift_eq_ok_iff.mp h).1
  · intro h
    exact ⟨[], [], lift_eq_ok_iff.mpr ⟨h, rfl⟩⟩

theorem gives_bind_iff (hk : ∀ a, (k a).IsBlind) {b : β} :
    (m >>= k).Gives b ↔ ∃ a, m.Gives a ∧ (k a).Gives b := by
  constructor
  · rintro ⟨trace, after, h⟩
    obtain ⟨a, middle, ha, hb⟩ := bind_eq_ok_iff.mp h
    exact ⟨a, ⟨trace, middle, ha⟩, middle, after, hb⟩
  · rintro ⟨a, ⟨trace, middle, ha⟩, hb⟩
    obtain ⟨after, hb⟩ := (hk a).exists_apply hb middle
    exact ⟨trace, after, bind_eq_ok_iff.mpr ⟨a, middle, ha, hb⟩⟩

end Traced

namespace Evaluation

open Traced (SameResults IsBlind isCongruence_sameResults gives_bind_iff gives_pure_iff
  gives_lift_iff)

variable {scope : Scope} {default : Expr → Traced Value}

theorem isBlind_invoke (f : Function) (arguments : List Value) : (invoke f arguments).IsBlind := by
  intro trace other
  rw [invoke_apply, invoke_apply]
  split <;> rfl

theorem isBlind_call (hd : ∀ e, (default e).IsBlind) (function : String) (positional : List Value)
    (keywords : Named Value) : (call scope default function positional keywords).IsBlind :=
  call_related isCongruence_sameResults rfl (fun _ _ _ _ e _ => hd e)
    (fun f _ => isBlind_invoke f) positional keywords

theorem isBlind_evaluateWith (hd : ∀ e, (default e).IsBlind) (e : Expr) :
    (evaluateWith scope default e).IsBlind :=
  evaluateWith_related isCongruence_sameResults rfl e fun function _ => isBlind_call hd function

theorem isBlind_evaluateItems (hd : ∀ e, (default e).IsBlind) (es : List Expr) :
    (evaluateItems scope default es).IsBlind :=
  evaluateItems_related isCongruence_sameResults rfl es fun function _ => isBlind_call hd function

theorem isBlind_evaluateKeywords (hd : ∀ e, (default e).IsBlind) (before : Named Value)
    (keywords : List (String × Expr)) : (evaluateKeywords scope default before keywords).IsBlind :=
  evaluateKeywords_related isCongruence_sameResults rfl before keywords
    fun function _ => isBlind_call hd function

/-- Evaluation to a depth is evaluation with defaults that are blind. -/
theorem exists_evaluateTo_eq (scope : Scope) (n : Nat) :
    ∃ default, evaluateTo scope n = evaluateWith scope default ∧ ∀ e, (default e).IsBlind := by
  induction n with
  | zero => exact ⟨_, rfl, fun _ _ _ => rfl⟩
  | succ n ih =>
    obtain ⟨default, hdefault, hd⟩ := ih
    refine ⟨_, rfl, fun e => ?_⟩
    rw [hdefault]
    exact isBlind_evaluateWith hd e

/-! ## Lists of expressions -/

theorem gives_evaluateItems_iff (hd : ∀ e, (default e).IsBlind) {es : List Expr} {vs : List Value} :
    (evaluateItems scope default es).Gives vs ↔
      List.Forall₂ (fun e => (evaluateWith scope default e).Gives) es vs := by
  induction es generalizing vs with
  | nil => rw [evaluateItems, gives_pure_iff, List.forall₂_nil_left_iff]
  | cons e es ih =>
    have hitems : (evaluateItems scope default es).IsBlind := isBlind_evaluateItems hd es
    have hrest (v : Value) := hitems.bind fun rest => Traced.isBlind_pure (a := v :: rest)
    simp only [evaluateItems, gives_bind_iff hrest, gives_bind_iff fun _ => Traced.isBlind_pure,
      gives_pure_iff, ih, List.forall₂_cons_left_iff]
    constructor
    · rintro ⟨v, hv, rest, hall, rfl⟩
      exact ⟨v, rest, hv, hall, rfl⟩
    · rintro ⟨v, rest, hv, hall, rfl⟩
      exact ⟨v, hv, rest, hall, rfl⟩

theorem gives_evaluateKeywords_iff (hd : ∀ e, (default e).IsBlind) {before : Named Value}
    {keywords : List (String × Expr)} {names : Named Value} :
    (evaluateKeywords scope default before keywords).Gives names ↔
      ∃ pairs, List.Forall₂ (fun keyword pair => pair.1 = keyword.1 ∧
        (evaluateWith scope default keyword.2).Gives pair.2) keywords pairs ∧
        names = before.putAll pairs := by
  induction keywords generalizing before with
  | nil =>
    rw [evaluateKeywords, gives_pure_iff]
    constructor
    · rintro rfl
      exact ⟨[], .nil, rfl⟩
    · rintro ⟨pairs, hpairs, rfl⟩
      cases hpairs
      rfl
  | cons keyword keywords ih =>
    obtain ⟨name, e⟩ := keyword
    have hrest (v : Value) :
        (evaluateKeywords scope default (before.put name v) keywords).IsBlind :=
      isBlind_evaluateKeywords hd _ keywords
    rw [evaluateKeywords, gives_bind_iff hrest]
    simp only [ih]
    constructor
    · rintro ⟨v, hv, pairs, hpairs, rfl⟩
      exact ⟨(name, v) :: pairs, .cons ⟨rfl, hv⟩ hpairs, rfl⟩
    · rintro ⟨pairs, hpairs, rfl⟩
      obtain _ | ⟨⟨hname, hv⟩, hpairs⟩ := hpairs
      next pair pairs =>
      obtain ⟨other, v⟩ := pair
      obtain rfl : other = name := hname
      exact ⟨v, hv, pairs, hpairs, rfl⟩

end Evaluation

/-! ## Arguments as they are written -/

namespace Source

namespace Argument

def positional? : Argument → Option Expr
  | .positional e => some e
  | _ => none

def keyword? : Argument → Option (String × Expr)
  | .keyword name e => some (name, e)
  | _ => none

def spread? : Argument → Option Expr
  | .spread e => some e
  | _ => none

end Argument

variable {G : Expr → Value → Prop}

def lastSpread? (arguments : List Argument) : Option Expr :=
  arguments.reverse.findSome? Argument.spread?

theorem lastSpread?_cons (argument : Argument) (arguments : List Argument) :
    lastSpread? (argument :: arguments) = (lastSpread? arguments).or argument.spread? := by
  rw [lastSpread?, List.reverse_cons, List.findSome?_append, List.findSome?_singleton, lastSpread?]

theorem callOf_eq (function : String) (arguments : List Argument) :
    Reading.callOf function arguments =
      .call function (arguments.filterMap Argument.positional?)
        (arguments.filterMap Argument.keyword?) (lastSpread? arguments) := rfl

/-- What a spread value supplies: the pairs of a map by their keys, the items of anything else by
their places. -/
def spreadSupplies : Value → List Supply
  | .map pairs => Supply.ofNames (pairs.map fun (key, v) => (Text.canonicalName key.plainText, v))
  | v => Supply.ofPlaces v.items

/-- What an argument supplies, the values of expressions being given. -/
def Argument.Supplies (G : Expr → Value → Prop) : Argument → List Supply → Prop
  | .positional e, supplies => ∃ v, G e v ∧ supplies = [.positional v]
  | .keyword name e, supplies => ∃ v, G e v ∧ supplies = [.named name v]
  | .spread e, supplies => ∃ v, G e v ∧ supplies = spreadSupplies v

def overlooked : List Argument → List (List Supply) → List Supply
  | .spread _ :: arguments, supplies :: rest =>
    (if (lastSpread? arguments).isSome then supplies else []) ++ overlooked arguments rest
  | _ :: arguments, _ :: rest => overlooked arguments rest
  | _, _ => []

/-- The value of the spread argument that counts, if there is one, supplies this. -/
def SpreadSupplies (G : Expr → Value → Prop) (spread? : Option Expr) (supplies : List Supply) :
    Prop :=
  match spread? with
  | none => supplies = []
  | some e => ∃ v, G e v ∧ supplies = spreadSupplies v

theorem exists_of_supplies {arguments : List Argument} {supplies : List (List Supply)}
    (h : List.Forall₂ (Argument.Supplies G) arguments supplies) :
    ∃ placed named spread,
      List.Forall₂ G (arguments.filterMap Argument.positional?) placed ∧
      List.Forall₂ (fun keyword pair => pair.1 = keyword.1 ∧ G keyword.2 pair.2)
        (arguments.filterMap Argument.keyword?) named ∧
      SpreadSupplies G (lastSpread? arguments) spread ∧
      supplies.flatten.Perm (Supply.ofPlaces placed ++ Supply.ofNames named ++ spread ++
        overlooked arguments supplies) := by
  classical
  simp only [List.perm_iff_count]
  induction h with
  | nil => exact ⟨[], [], [], .nil, .nil, rfl, fun _ => rfl⟩
  | @cons argument supplied arguments supplies hargument _ ih =>
    obtain ⟨placed, named, spread, hplaced, hnamed, hspread, hcount⟩ := ih
    rw [lastSpread?_cons]
    cases argument with
    | positional e =>
      obtain ⟨v, hv, rfl⟩ := hargument
      refine ⟨v :: placed, named, spread, .cons hv hplaced, hnamed, ?_, fun s => ?_⟩
      · simpa [Argument.spread?] using hspread
      · have := hcount s
        simp only [List.flatten_cons, List.count_append, Supply.ofPlaces, List.map_cons,
          List.count_cons, List.count_nil, overlooked] at this ⊢
        omega
    | keyword name e =>
      obtain ⟨v, hv, rfl⟩ := hargument
      refine ⟨placed, (name, v) :: named, spread, hplaced, .cons ⟨rfl, hv⟩ hnamed, ?_, fun s => ?_⟩
      · simpa [Argument.spread?] using hspread
      · have := hcount s
        simp only [List.flatten_cons, List.count_append, Supply.ofNames, List.map_cons,
          List.count_cons, List.count_nil, overlooked] at this ⊢
        omega
    | spread e =>
      obtain ⟨v, hv, rfl⟩ := hargument
      cases hlast : lastSpread? arguments with
      | some last =>
        rw [hlast] at hspread
        refine ⟨placed, named, spread, hplaced, hnamed, hspread, fun s => ?_⟩
        have := hcount s
        simp only [List.flatten_cons, List.count_append, overlooked, hlast, Option.isSome_some,
          if_true] at this ⊢
        omega
      | none =>
        rw [hlast] at hspread
        obtain rfl : spread = [] := hspread
        refine ⟨placed, named, spreadSupplies v, hplaced, hnamed, ⟨v, hv, rfl⟩, fun s => ?_⟩
        have := hcount s
        simp only [List.flatten_cons, List.count_append, overlooked, hlast, Option.isSome_none,
          Bool.false_eq_true, if_false, List.nil_append, List.count_nil] at this ⊢
        omega

/-- What the arguments come to before they are bound, the values of expressions being given: values
by their places and values under names. -/
def Pools (G : Expr → Value → Prop) (arguments : List Argument) (positional : List Value)
    (keywords : Named Value) : Prop :=
  ∃ placed named,
    List.Forall₂ G (arguments.filterMap Argument.positional?) placed ∧
    List.Forall₂ (fun keyword pair => pair.1 = keyword.1 ∧ G keyword.2 pair.2)
      (arguments.filterMap Argument.keyword?) named ∧
    match lastSpread? arguments with
    | none => positional = placed ∧ keywords = Named.putAll [] named
    | some e => ∃ v, G e v ∧
      (positional, keywords) = Evaluation.spread placed (Named.putAll [] named) (some v)

theorem spread_eq (positional : List Value) (named : List (String × Value)) (v : Value) :
    ∃ placed pairs, Evaluation.spread positional (Named.putAll [] named) (some v) =
        (positional ++ placed, Named.putAll [] (named ++ pairs)) ∧
      spreadSupplies v = Supply.ofPlaces placed ++ Supply.ofNames pairs := by
  cases v with
  | map pairs =>
    refine ⟨[], pairs.map fun (key, v) => (Text.canonicalName key.plainText, v), ?_, rfl⟩
    simp only [Evaluation.spread, Named.putAll, List.append_nil, List.foldl_append, List.foldl_map]
  | _ =>
    refine ⟨_, [], ?_, (List.append_nil _).symm⟩
    rw [List.append_nil]
    rfl

theorem nodup_of_pools {arguments : List Argument} {positional : List Value}
    {keywords : Named Value} (h : Pools G arguments positional keywords) :
    (keywords.map Prod.fst).Nodup := by
  obtain ⟨placed, named, -, -, hspread⟩ := h
  split at hspread
  · obtain ⟨-, rfl⟩ := hspread
    exact Named.nodup_putAll List.nodup_nil
  · obtain ⟨v, -, hpool⟩ := hspread
    obtain ⟨items, pairs, hspread, -⟩ := spread_eq placed named v
    obtain ⟨-, rfl⟩ := Prod.mk.inj (hpool.trans hspread)
    exact Named.nodup_putAll List.nodup_nil

/-- The pool has all places and, as far as names are not given twice, all names that are supplied,
but for what is overlooked. -/
theorem exists_of_pools (hG : Relator.RightUnique G) {arguments : List Argument}
    {positional : List Value} {keywords : Named Value} (h : Pools G arguments positional keywords)
    {supplies : List (List Supply)}
    (hsupplies : List.Forall₂ (Argument.Supplies G) arguments supplies) :
    ∃ named, keywords = Named.putAll [] named ∧
      supplies.flatten.Perm (Supply.ofPlaces positional ++ Supply.ofNames named ++
        overlooked arguments supplies) := by
  have hkeyword : Relator.RightUnique fun (keyword : String × Expr) (pair : String × Value) =>
      pair.1 = keyword.1 ∧ G keyword.2 pair.2 := by
    rintro keyword pair other ⟨hname, hv⟩ ⟨hother, hw⟩
    exact Prod.ext (hname.trans hother.symm) (hG hv hw)
  obtain ⟨placed, named, hplaced, hnamed, hspread⟩ := h
  obtain ⟨placed', named', spread, hplaced', hnamed', hsupplied, hperm⟩ :=
    exists_of_supplies hsupplies
  obtain rfl : placed = placed' := hG.forall₂ hplaced hplaced'
  obtain rfl : named = named' := hkeyword.forall₂ hnamed hnamed'
  cases hlast : lastSpread? arguments with
  | none =>
    rw [hlast] at hspread hsupplied
    obtain ⟨rfl, rfl⟩ := hspread
    obtain rfl : spread = [] := hsupplied
    exact ⟨named, rfl, by rwa [List.append_nil] at hperm⟩
  | some e =>
    rw [hlast] at hspread hsupplied
    obtain ⟨v, hv, hpool⟩ := hspread
    obtain ⟨w, hw, rfl⟩ := hsupplied
    obtain rfl : v = w := hG hv hw
    obtain ⟨items, pairs, hspread, hvalue⟩ := spread_eq placed named v
    obtain ⟨rfl, rfl⟩ := Prod.mk.inj (hpool.trans hspread)
    refine ⟨named ++ pairs, rfl, hperm.trans ?_⟩
    rw [hvalue]
    -- The items of the spread value go in front of the names.
    simp only [Supply.ofPlaces, Supply.ofNames, List.map_append, List.append_assoc]
    refine List.Perm.append_left _ ?_
    rw [← List.append_assoc, ← List.append_assoc (items.map Supply.positional)]
    exact List.perm_append_comm.append_right _

theorem names_supplies (placed : List Value) (named : List (String × Value)) :
    Supply.names (Supply.ofPlaces placed ++ Supply.ofNames named) = named.map Prod.fst := by
  have hplaces : Supply.names (Supply.ofPlaces placed) = [] := by
    simp [Supply.names, Supply.ofPlaces, Supply.name?]
  have hnames : Supply.names (Supply.ofNames named) = named.map Prod.fst := by
    simp [Supply.names, Supply.ofNames, Supply.name?, Function.comp_def]
  rw [Supply.names, List.filterMap_append, ← Supply.names, ← Supply.names, hplaces, hnames]
  rfl

/-- Of what is bound, everything that was supplied is delivered exactly if no name is given twice
and nothing is overlooked. -/
theorem delivers_iff_of_pools (hG : Relator.RightUnique G) {arguments : List Argument}
    {positional : List Value} {keywords : Named Value} (h : Pools G arguments positional keywords)
    {s : Signature} {binding : Binding} (hbind : s.bind positional keywords = .ok binding)
    {supplies : List (List Supply)}
    (hsupplies : List.Forall₂ (Argument.Supplies G) arguments supplies) :
    s.Delivers binding supplies.flatten ↔
      (Supply.names supplies.flatten).Nodup ∧ overlooked arguments supplies = [] := by
  obtain ⟨named, rfl, hperm⟩ := exists_of_pools hG h hsupplies
  have hpool : s.Delivers binding
      (Supply.ofPlaces positional ++ Supply.ofNames (Named.putAll [] named)) :=
    Signature.delivers_of_bind (Named.nodup_putAll List.nodup_nil) hbind
  have hnodup : (Named.putAll [] named).length = named.length ↔ (named.map Prod.fst).Nodup := by
    simpa using @Named.length_putAll_iff _ [] named List.nodup_nil
  constructor
  · intro hall
    have hcount := hall.length_eq.trans hpool.length_eq.symm
    have hle := @Named.length_putAll_le _ [] named
    simp only [hperm.length_eq, List.length_append, Supply.ofPlaces, Supply.ofNames,
      List.length_map, List.length_nil] at hcount hle
    have hnone : overlooked arguments supplies = [] := List.eq_nil_of_length_eq_zero (by omega)
    rw [hnone, List.append_nil] at hperm
    refine ⟨?_, hnone⟩
    rw [Supply.names_nodup_iff hperm, names_supplies]
    exact hnodup.mp (by omega)
  · rintro ⟨hnames, hnone⟩
    rw [hnone, List.append_nil] at hperm
    rw [Supply.names_nodup_iff hperm, names_supplies] at hnames
    rw [Named.putAll_of_nodup (by simpa using hnames), List.nil_append] at hpool
    exact hpool.perm hperm.symm

end Source

/-! ## Calls -/

/-- The arguments that a function gets of a binding: the value of each slot, or some value of a
default, and the rest as a list. -/
def Signature.Passes (s : Signature) (binding : Binding) (values : List Value) : Prop :=
  ∃ fixed, List.Forall₂ (fun slot v => ∀ w, slot = some w → v = w) binding.slots fixed ∧
    values = if s.parameters.any Parameter.isRest then
      fixed ++ [.list binding.rest .comma false] else fixed

namespace Evaluation

open Source (Pools Argument overlooked lastSpread?)
open Traced (IsBlind gives_bind_iff)

variable {scope : Scope} {default : Expr → Traced Value}

theorem fillSlots_passes {slots : List (Option Value)} {parameters : List Parameter}
    (h : slots.length = parameters.length) :
    (fillSlots default slots parameters).Ensures
      (List.Forall₂ (fun slot v => ∀ w, slot = some w → v = w) slots) := by
  induction slots generalizing parameters with
  | nil => exact Traced.ensures_pure .nil
  | cons slot slots ih =>
    cases parameters with
    | nil => cases h
    | cons p parameters =>
      have hrest := ih (Nat.succ.inj h)
      cases slot with
      | some v =>
        refine hrest.bind fun values hvalues => Traced.ensures_pure (.cons ?_ hvalues)
        rintro _ ⟨⟩
        rfl
      | none =>
        have hempty (v w : Value) : none = some w → v = w := nofun
        have hvalue (v : Value) := hrest.bind fun values hvalues =>
          Traced.ensures_pure (List.Forall₂.cons (hempty v) hvalues)
        simp only [fillSlots]
        cases p.default with
        | some e => exact Traced.ensures_bind hvalue
        | none => exact Traced.ensures_bind hvalue

theorem prepare_passes {f : Function} {positional : List Value} {keywords : Named Value}
    (hk : (keywords.map Prod.fst).Nodup) :
    (prepare default f positional keywords).Ensures fun values => ∃ binding,
      f.signature.bind positional keywords = .ok binding ∧ f.signature.Passes binding values := by
  refine (Traced.ensures_lift fun _ h => h).bind fun binding hbind => ?_
  obtain ⟨filled, htakes, hslots, -⟩ := Signature.delivers_of_bind hk hbind
  have hlength : binding.slots.length = (f.signature.parameters.filter (!·.isRest)).length := by
    rw [hslots, List.length_map, htakes.length_eq]
  exact (fillSlots_passes hlength).bind fun fixed hfixed =>
    Traced.ensures_pure ⟨binding, hbind, fixed, hfixed, rfl⟩

theorem call_passes {function : String} {f : Function}
    (hf : scope.functions.find? function = some f) {positional : List Value}
    {keywords : Named Value} (hk : (keywords.map Prod.fst).Nodup) :
    (call scope default function positional keywords).Ensures fun v => ∃ binding values,
      f.signature.bind positional keywords = .ok binding ∧ f.signature.Passes binding values ∧
        f.body values >>= Reply.awaited = .ok (.value v) := by
  rw [call_of_find? hf]
  exact (prepare_passes hk).bind fun values ⟨binding, hbind, hpasses⟩ =>
    invoke_ensures fun v hv => ⟨binding, values, hbind, hpasses, hv⟩

theorem gives_callOf_iff (hd : ∀ e, (default e).IsBlind) {function : String}
    {arguments : List Argument} {v : Value} :
    (evaluateWith scope default (Source.Reading.callOf function arguments)).Gives v ↔
      ∃ positional keywords,
        Pools (fun e => (evaluateWith scope default e).Gives) arguments positional keywords ∧
          (call scope default function positional keywords).Gives v := by
  have hcall (positional : List Value) (keywords : Named Value) :
      (call scope default function positional keywords).IsBlind := isBlind_call hd _ _ _
  rw [Source.callOf_eq]
  cases hlast : lastSpread? arguments with
  | none =>
    rw [evaluateWith, gives_bind_iff fun _ =>
      (isBlind_evaluateKeywords hd _ _).bind fun _ => hcall _ _]
    simp only [gives_bind_iff fun _ => hcall _ _, gives_evaluateItems_iff hd,
      gives_evaluateKeywords_iff hd, Pools, hlast]
    constructor
    · rintro ⟨placed, hplaced, _, ⟨named, hnamed, rfl⟩, hv⟩
      exact ⟨placed, _, ⟨placed, named, hplaced, hnamed, rfl, rfl⟩, hv⟩
    · rintro ⟨positional, keywords, ⟨placed, named, hplaced, hnamed, rfl, rfl⟩, hv⟩
      exact ⟨positional, hplaced, _, ⟨named, hnamed, rfl⟩, hv⟩
  | some rest =>
    rw [evaluateWith, gives_bind_iff fun _ => (isBlind_evaluateKeywords hd _ _).bind fun _ =>
      (isBlind_evaluateWith hd _).bind fun _ => hcall _ _]
    simp only [gives_bind_iff fun _ => (isBlind_evaluateWith hd rest).bind fun _ => hcall _ _,
      gives_bind_iff fun _ => hcall _ _, gives_evaluateItems_iff hd,
      gives_evaluateKeywords_iff hd, Pools, hlast]
    constructor
    · rintro ⟨placed, hplaced, _, ⟨named, hnamed, rfl⟩, w, hw, hv⟩
      exact ⟨_, _, ⟨placed, named, hplaced, hnamed, w, hw, rfl⟩, hv⟩
    · rintro ⟨positional, keywords, ⟨placed, named, hplaced, hnamed, w, hw, hpool⟩, hv⟩
      obtain ⟨rfl, rfl⟩ := Prod.mk.inj hpool
      exact ⟨placed, hplaced, _, ⟨named, hnamed, rfl⟩, w, hw, hv⟩

theorem exists_callOf_apply (hd : ∀ e, (default e).IsBlind) {function : String}
    {arguments : List Argument} {positional : List Value} {keywords : Named Value}
    (h : Pools (fun e => (evaluateWith scope default e).Gives) arguments positional keywords)
    (trace : List Invocation) :
    ∃ middle, evaluateWith scope default (Source.Reading.callOf function arguments) trace =
      call scope default function positional keywords middle := by
  obtain ⟨placed, named, hplaced, hnamed, hspread⟩ := h
  have hnames : (evaluateKeywords scope default [] (arguments.filterMap Argument.keyword?)).Gives
      (Named.putAll [] named) := (gives_evaluateKeywords_iff hd).mpr ⟨named, hnamed, rfl⟩
  obtain ⟨first, hfirst⟩ := (isBlind_evaluateItems hd _).exists_apply
    ((gives_evaluateItems_iff hd).mpr hplaced) trace
  obtain ⟨second, hsecond⟩ := (isBlind_evaluateKeywords hd _ _).exists_apply hnames first
  rw [Source.callOf_eq]
  cases hlast : lastSpread? arguments with
  | none =>
    rw [hlast] at hspread
    obtain ⟨rfl, rfl⟩ := hspread
    refine ⟨second, ?_⟩
    rw [evaluateWith, Traced.bind_of_ok hfirst, Traced.bind_of_ok hsecond]
  | some rest =>
    rw [hlast] at hspread
    obtain ⟨w, hw, hpool⟩ := hspread
    obtain ⟨third, hthird⟩ := (isBlind_evaluateWith hd rest).exists_apply hw second
    refine ⟨third, ?_⟩
    rw [evaluateWith, Traced.bind_of_ok hfirst, Traced.bind_of_ok hsecond,
      Traced.bind_of_ok hthird, ← hpool]

/-- A call whose arguments cannot be bound fails as style sheets do. Where they can be bound the
function gets them as they are bound, and that is each of the values supplied exactly once if and
only if no name is given twice and no spread argument in front of the last one supplies anything. -/
theorem delivers_iff (scope : Scope) (n : Nat) {function : String} {f : Function}
    (hf : scope.functions.find? function = some f) (arguments : List Argument) :
    (∀ positional keywords failure,
      Pools (fun e => (evaluateTo scope n e).Gives) arguments positional keywords →
      f.signature.bind positional keywords = .error failure → failure.isCompileError = true ∧
        ∀ trace, evaluateTo scope n (Source.Reading.callOf function arguments) trace =
          .error failure) ∧
    ∀ v, (evaluateTo scope n (Source.Reading.callOf function arguments)).Gives v →
      ∃ positional keywords binding values,
        Pools (fun e => (evaluateTo scope n e).Gives) arguments positional keywords ∧
        f.signature.bind positional keywords = .ok binding ∧
        f.signature.Passes binding values ∧
        f.body values >>= Reply.awaited = .ok (.value v) ∧
        ∀ supplies, List.Forall₂ (Argument.Supplies fun e => (evaluateTo scope n e).Gives)
          arguments supplies →
          (f.signature.Delivers binding supplies.flatten ↔
            (Supply.names supplies.flatten).Nodup ∧ overlooked arguments supplies = []) := by
  obtain ⟨default, hdefault, hd⟩ := exists_evaluateTo_eq scope n
  rw [hdefault]
  have hunique : Relator.RightUnique fun e => (evaluateWith scope default e).Gives :=
    fun e _ _ hv hw => (isBlind_evaluateWith hd e).unique hv hw
  constructor
  · intro positional keywords failure hpool hbind
    refine ⟨Signature.isCompileError_of_bindFrom hbind, fun trace => ?_⟩
    obtain ⟨middle, hcall⟩ := exists_callOf_apply hd hpool trace
    rw [hcall]
    simp only [call, hf, hbind]
    rfl
  · intro v hv
    obtain ⟨positional, keywords, hpool, hcall⟩ := (gives_callOf_iff hd).mp hv
    obtain ⟨trace, after, hv⟩ := hcall
    obtain ⟨binding, values, hbind, hpasses, hbody⟩ :=
      call_passes hf (Source.nodup_of_pools hpool) trace v after hv
    exact ⟨positional, keywords, binding, values, hpool, hbind, hpasses, hbody,
      fun _ => Source.delivers_iff_of_pools hunique hpool hbind⟩

theorem gives_literal (scope : Scope) (n : Nat) (v : Value) :
    (evaluateTo scope n (.literal v)).Gives v := by
  rw [evaluateTo_literal]
  exact Traced.gives_pure_iff.mpr rfl

/-- A map by its place and the key by its name. -/
theorem delivers_iff_named :
    ∃ f, (⟨Builtin.registry, []⟩ : Scope).functions.find? "map-get" = some f ∧
      ∃ v, (evaluateTo ⟨Builtin.registry, []⟩ 0 (Source.Reading.callOf "map-get"
        [.positional (.literal (.map [(.string "a", .string "b")])),
          .keyword "key" (.literal (.string "a"))])).Gives v ∧
      ∃ binding, f.signature.Delivers binding
        [.positional (.map [(.string "a", .string "b")]), .named "key" (.string "a")] := by
  have hf : (⟨Builtin.registry, []⟩ : Scope).functions.find? "map-get" =
      some ⟨⟨"map-get", [Builtin.required "map", Builtin.required "key", ⟨"keys", none, true⟩]⟩,
        Builtin.ofThree Builtin.mapGet⟩ := rfl
  have hv : (evaluateTo ⟨Builtin.registry, []⟩ 0 (Source.Reading.callOf "map-get"
      [.positional (.literal (.map [(.string "a", .string "b")])),
        .keyword "key" (.literal (.string "a"))])).Gives (.string "b") := ⟨[], _, rfl⟩
  have hgives := gives_literal ⟨Builtin.registry, []⟩ 0
  obtain ⟨_, _, binding, _, -, -, -, -, hdelivers⟩ := (delivers_iff _ 0 hf _).2 _ hv
  refine ⟨_, hf, _, hv, binding, ?_⟩
  refine (hdelivers [[.positional (.map [(.string "a", .string "b")])],
    [.named "key" (.string "a")]] ?_).mpr ⟨by decide, rfl⟩
  exact .cons ⟨_, hgives _, rfl⟩ (.cons ⟨_, hgives _, rfl⟩ .nil)

/-- Of two values under one name the first is lost. -/
theorem not_delivers :
    ¬ ∀ (scope : Scope) (n : Nat) (function : String) (f : Function),
      scope.functions.find? function = some f → ∀ (arguments : List Argument) (v : Value),
      (evaluateTo scope n (Source.Reading.callOf function arguments)).Gives v →
      ∀ positional keywords binding,
      Pools (fun e => (evaluateTo scope n e).Gives) arguments positional keywords →
      f.signature.bind positional keywords = .ok binding →
      ∀ supplies, List.Forall₂ (Argument.Supplies fun e => (evaluateTo scope n e).Gives)
        arguments supplies → f.signature.Delivers binding supplies.flatten := by
  intro hall
  have hgives := gives_literal ⟨Literal.probeRegistry, []⟩ 0
  have hdelivers := hall ⟨Literal.probeRegistry, []⟩ 0 "___" Literal.probeFunction rfl
    [.keyword "value" (.literal (.string "a")), .keyword "value" (.literal (.string "b"))]
    (.string "b") ⟨[], _, rfl⟩ [] [("value", .string "b")] ⟨[some (.string "b")], []⟩
    ⟨[], [("value", .string "a"), ("value", .string "b")], .nil,
      .cons ⟨rfl, hgives _⟩ (.cons ⟨rfl, hgives _⟩ .nil), rfl, rfl⟩ rfl
    [[.named "value" (.string "a")], [.named "value" (.string "b")]]
    (.cons ⟨_, hgives _, rfl⟩ (.cons ⟨_, hgives _, rfl⟩ .nil))
  have hlength : 2 = 1 := hdelivers.length_eq
  cases hlength

end Evaluation

end SassData
