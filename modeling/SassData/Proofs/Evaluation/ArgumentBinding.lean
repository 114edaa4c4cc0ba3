import Mathlib.Data.List.Perm.Basic
import Mathlib.Data.List.ReduceOption
import SassData.Proofs.Evaluation.EvaluationSteps
import SassData.Proofs.Evaluation.ForeignFailures
import SassData.Proofs.Evaluation.NamedValues

/-!
# What a binding does with the arguments

Binding loses nothing and doubles nothing: each argument, by its place or by a name, is in the slot
of one parameter or in the rest.
-/

namespace SassData

set_option autoImplicit false

/-- A value as a call supplies it: by its place or under a name. -/
inductive Supply
  | positional (v : Value)
  | named (name : String) (v : Value)

namespace Supply

def value : Supply → Value
  | positional v | named _ v => v

def name? : Supply → Option String
  | positional _ => none
  | named name _ => some name

def ofPlaces (values : List Value) : List Supply := values.map positional

def ofNames (names : List (String × Value)) : List Supply := names.map fun (name, v) => named name v

def names (supplies : List Supply) : List String := supplies.filterMap name?

theorem names_nodup_iff {supplies others : List Supply} (h : supplies.Perm others) :
    (names supplies).Nodup ↔ (names others).Nodup :=
  (h.filterMap name?).nodup_iff

end Supply

/-- What fills the slot of a parameter: a supply that fits it, or nothing if there is a default. -/
def Parameter.Takes (p : Parameter) : Option Supply → Prop
  | some s => ∀ name, s.name? = some name → name = p.name
  | none => p.default.isSome = true

/-- Each of the supplies is in exactly one slot of a parameter that may take it, or in the rest, and
nothing else is. -/
def Signature.Delivers (s : Signature) (binding : Binding) (supplies : List Supply) : Prop :=
  ∃ filled : List (Option Supply),
    List.Forall₂ Parameter.Takes (s.parameters.filter (!·.isRest)) filled ∧
    binding.slots = filled.map (Option.map Supply.value) ∧
    (binding.rest ≠ [] → s.parameters.any Parameter.isRest = true) ∧
    (filled.reduceOption ++ Supply.ofPlaces binding.rest).Perm supplies

namespace Signature

/-- What is bound from some point on: the slots filled, the rest added, and all that is left to be
bound in one or the other. -/
theorem exists_of_bindFrom {function : String} {parameters : List Parameter}
    {positional : List Value} {keywords : Named Value} {slots : List (Option Value)}
    {rest : List Value} {binding : Binding} (hk : (keywords.map Prod.fst).Nodup)
    (h : bindFrom function parameters positional keywords slots rest = .ok binding) :
    ∃ (filled : List (Option Supply)) (extra : List Value),
      List.Forall₂ Parameter.Takes (parameters.filter (!·.isRest)) filled ∧
      binding.slots = slots.reverse ++ filled.map (Option.map Supply.value) ∧
      binding.rest = rest ++ extra ∧
      (extra ≠ [] → parameters.any Parameter.isRest = true) ∧
      (filled.reduceOption ++ Supply.ofPlaces extra).Perm
        (Supply.ofPlaces positional ++ Supply.ofNames keywords) := by
  fun_induction bindFrom function parameters positional keywords slots rest with
  | case1 slots rest =>
    cases h
    exact ⟨[], [], .nil, by simp, by simp, (absurd rfl ·), .nil⟩
  | case2 => cases h
  | case3 => cases h
  | case4 p parameters positional keywords slots rest hr ih =>
    obtain ⟨filled, extra, htakes, hslots, hrest, -, hperm⟩ := ih hk h
    refine ⟨filled, positional ++ extra, ?_, hslots, by rw [hrest, List.append_assoc], ?_, ?_⟩
    · simpa [hr] using htakes
    · simp [hr]
    · simp only [Supply.ofPlaces, List.map_append, List.map_nil, List.nil_append] at hperm ⊢
      refine .trans ?_ (hperm.append_left (positional.map .positional))
      rw [← List.append_assoc, ← List.append_assoc]
      exact List.perm_append_comm.append_right _
  | case5 => cases h
  | case6 p parameters keywords slots rest hr v positional hn ih =>
    obtain ⟨filled, extra, htakes, hslots, hrest, hany, hperm⟩ := ih hk h
    refine ⟨some (.positional v) :: filled, extra, ?_, ?_, hrest, ?_, ?_⟩
    · rw [List.filter_cons_of_pos (by simp [hr])]
      exact .cons (fun name hname => absurd hname (Option.some_ne_none name).symm) htakes
    · simpa [Supply.value] using hslots
    · simpa [hr] using hany
    · exact hperm.cons _
  | case7 p parameters keywords slots rest hr v hv ih =>
    obtain ⟨filled, extra, htakes, hslots, hrest, hany, hperm⟩ := ih (Named.nodup_remove hk) h
    refine ⟨some (.named p.name v) :: filled, extra, ?_, ?_, hrest, ?_, ?_⟩
    · rw [List.filter_cons_of_pos (by simp [hr])]
      exact .cons (fun name hname => (Option.some.inj hname).symm) htakes
    · simpa [Supply.value] using hslots
    · simpa [hr] using hany
    · have hnames := (Named.perm_remove hk hv).map fun pair => Supply.named pair.1 pair.2
      exact (hperm.cons _).trans hnames
  | case8 p parameters keywords slots rest hr hn hd ih =>
    obtain ⟨filled, extra, htakes, hslots, hrest, hany, hperm⟩ := ih hk h
    refine ⟨none :: filled, extra, ?_, ?_, hrest, ?_, hperm⟩
    · rw [List.filter_cons_of_pos (by simp [hr])]
      exact .cons hd htakes
    · simpa using hslots
    · simpa [hr] using hany
  | case9 => cases h

theorem delivers_of_bind {s : Signature} {positional : List Value} {keywords : Named Value}
    {binding : Binding} (hk : (keywords.map Prod.fst).Nodup)
    (h : s.bind positional keywords = .ok binding) :
    s.Delivers binding (Supply.ofPlaces positional ++ Supply.ofNames keywords) := by
  obtain ⟨filled, extra, htakes, hslots, hrest, hany, hperm⟩ := exists_of_bindFrom hk h
  rw [List.nil_append] at hrest
  subst hrest
  exact ⟨filled, htakes, hslots, hany, hperm⟩

/-- How many are delivered is told by the binding alone. -/
theorem Delivers.length_eq {s : Signature} {binding : Binding} {supplies : List Supply}
    (h : s.Delivers binding supplies) :
    supplies.length = binding.slots.reduceOption.length + binding.rest.length := by
  obtain ⟨filled, -, hslots, -, hperm⟩ := h
  rw [← hperm.length_eq, hslots, List.length_append, Supply.ofPlaces, List.length_map,
    List.reduceOption_map, List.length_map]

theorem Delivers.perm {s : Signature} {binding : Binding} {supplies others : List Supply}
    (h : s.Delivers binding supplies) (hperm : supplies.Perm others) :
    s.Delivers binding others := by
  obtain ⟨filled, htakes, hslots, hany, hfilled⟩ := h
  exact ⟨filled, htakes, hslots, hany, hfilled.trans hperm⟩

end Signature

end SassData
