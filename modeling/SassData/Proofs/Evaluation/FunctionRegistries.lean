import SassData.Engine.Literal

/-!
# Functions that are found

What stands in the registries of the package: the built-in functions, whose defaults are literals,
and the probe.
-/

namespace SassData

set_option autoImplicit false

theorem Named.get?_put {α : Type} (names : Named α) (name key : String) (a : α) :
    (names.put name a).get? key = if name = key then some a else names.get? key := by
  split
  · next h => rw [h, Named.get?_put_self]
  · next h => rw [Named.get?_put_of_ne names h]

theorem Registry.mem_of_get?_register {functions : List Function} {r : Registry} {key : String}
    {f : Function} (h : (functions.foldl Registry.register r).get? key = some f) :
    f.signature.name = key ∧ f ∈ functions ∨ r.get? key = some f := by
  induction functions generalizing r with
  | nil => exact Or.inr h
  | cons g functions ih =>
    rcases ih h with ⟨hn, hm⟩ | hr
    · exact Or.inl ⟨hn, List.mem_cons_of_mem g hm⟩
    · rw [Registry.register, Named.get?_put] at hr
      split at hr
      · next hn =>
        cases hr
        exact Or.inl ⟨hn, List.mem_cons_self⟩
      · exact Or.inr hr

theorem Registry.mem_of_get?_merge {r other : Registry} {key : String} {f : Function}
    (h : (r.merge other).get? key = some f) : r.get? key = some f ∨ (key, f) ∈ other := by
  induction other generalizing r with
  | nil => exact Or.inl h
  | cons entry other ih =>
    rcases ih h with hr | hm
    · rw [Named.get?_put] at hr
      split at hr
      · next hn =>
        cases hr
        exact Or.inr (hn ▸ List.mem_cons_self)
      · exact Or.inl hr
    · exact Or.inr (List.mem_cons_of_mem entry hm)

namespace Builtin

theorem mem_of_get? {key : String} {f : Function} (h : registry.get? key = some f) :
    f.signature.name = key ∧ f ∈ functions := by
  rcases Registry.mem_of_get?_register h with h | h
  · exact h
  · cases h

/-- The only default of the built-in functions is that of the opacity. -/
theorem default_eq {f : Function} (hf : f ∈ functions) {p : Parameter}
    (hp : p ∈ f.signature.parameters) {e : Expr} (he : p.default = some e) :
    e = .literal (.number (.ofInt 1)) := by
  have hall : ∀ f ∈ functions, ∀ p ∈ f.signature.parameters,
      p.default = none ∨ p = opacity := by
    simp [functions, required]
  rcases hall f hf p hp with hn | rfl
  · rw [hn] at he
    cases he
  · cases he
    rfl

theorem default_literal {f : Function} (hf : f ∈ functions) {p : Parameter}
    (hp : p ∈ f.signature.parameters) {e : Expr} (he : p.default = some e) :
    ∃ v, e = .literal v := ⟨_, default_eq hf hp he⟩

end Builtin

theorem Evaluation.evaluateTo_literal (scope : Scope) (n : Nat) (v : Value) :
    evaluateTo scope n (.literal v) = pure v := by
  cases n <;> simp [evaluateTo, evaluateWith]

namespace Literal

def probeFunction : Function :=
  ⟨⟨probeName, [⟨"value", none, false⟩]⟩, fun arguments => .ok (.value (arguments.headD .null))⟩

def probeRegistry : Registry := [(probeName, probeFunction)]

theorem read_probeSignature :
    Signature.read "___($value)" = .ok ⟨probeName, [⟨"value", none, false⟩]⟩ := by
  have ho : Signature.outline? "___($value)".toList = some (probeName, "$value".toList) := by
    decide
  have hs : Signature.split "$value".toList = ["$value".toList] := by decide
  have hp : Signature.parameter? "$value".toList = some ("value", false, none) := by
    decide
  simp only [Signature.read, ho, hs, List.mapM_cons, List.mapM_nil, Signature.readParameter, hp]
  rfl

theorem ofDeclarations_probe : Registry.ofDeclarations probe = .ok probeRegistry := by
  simp only [Registry.ofDeclarations, probe, List.foldlM_cons, List.foldlM_nil,
    read_probeSignature]
  rfl

end Literal

end SassData
