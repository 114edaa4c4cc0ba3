import SassData.Proofs.Evaluation.RelatedScopes

/-!
# Functions that an expression does not call

An expression that nowhere calls a function is evaluated alike with the function and without it,
failures included, and notes no call of it. Scopes that differ in that function only may differ in
the defaults of others as long as these are evaluated alike.
-/

namespace SassData

set_option autoImplicit false

/-- No name in a list is a spelling of the name. -/
def Avoids (name : String) (functions : List String) : Prop :=
  ∀ function ∈ functions, Text.canonicalName function ≠ name

/-- The computations are one, and it notes no call of the name. -/
structure Alike (name : String) {α : Type} (m n : Traced α) : Prop where
  eq : m = n
  quiet : ∀ trace a after, m trace = .ok (a, after) →
    ∃ new, after = new ++ trace ∧ ∀ i ∈ new, i.function ≠ name

namespace Alike

variable {name : String} {α β : Type}

theorem pure (a : α) : Alike name (pure a) (pure a) where
  eq := rfl
  quiet := by
    intro trace b after h
    cases h
    exact ⟨[], rfl, fun i hi => nomatch hi⟩

theorem throw (failure : Failure) : Alike name (throw failure : Traced α) (throw failure) where
  eq := rfl
  quiet := by
    intro trace a after h
    cases h

theorem bind {m n : Traced α} {k l : α → Traced β} (h : Alike name m n)
    (hk : ∀ a, Alike name (k a) (l a)) : Alike name (m >>= k) (n >>= l) where
  eq := by
    rw [h.eq]
    exact bind_congr fun a => (hk a).eq
  quiet := by
    intro trace b after hb
    obtain ⟨a, middle, hm, hb⟩ := Traced.bind_eq_ok_iff.mp hb
    obtain ⟨new, rfl, hnew⟩ := h.quiet trace a middle hm
    obtain ⟨newer, rfl, hnewer⟩ := (hk a).quiet _ b after hb
    refine ⟨newer ++ new, (List.append_assoc newer new trace).symm, ?_⟩
    intro i hi
    exact (List.mem_append.mp hi).elim (hnewer i) (hnew i)

theorem isCongruence (name : String) : IsCongruence fun _ => Alike name := ⟨pure, throw, bind⟩

end Alike

namespace Evaluation

variable {name : String} {s t : Scope} {d e : Expr → Traced Value}

/-! ## Calls -/

theorem invoke_alike {f : Function} (hf : f.signature.name ≠ name) (arguments : List Value) :
    Alike name (invoke f arguments) (invoke f arguments) where
  eq := rfl
  quiet := by
    intro trace v after h
    rw [invoke_apply] at h
    split at h <;> cases h
    exact ⟨[_], rfl, fun i hi => by rwa [List.mem_singleton.mp hi]⟩

/-- Two scopes with the same variables and the same functions but for one, all defaults of which
are evaluated alike. -/
structure SameWithout (name : String) (s t : Scope) (d e : Expr → Traced Value) : Prop where
  assigned : s.assigned = t.assigned
  same : ∀ function, Text.canonicalName function ≠ name →
    s.functions.find? function = t.functions.find? function
  named : ∀ function f, s.functions.find? function = some f →
    f.signature.name = Text.canonicalName function
  defaults : ∀ function f, s.functions.find? function = some f →
    ∀ p ∈ f.signature.parameters, ∀ x, p.default = some x → Alike name (d x) (e x)

theorem call_alike (h : SameWithout name s t d e) {function : String}
    (hn : Text.canonicalName function ≠ name) (positional : List Value) (keywords : Named Value) :
    Alike name (call s d function positional keywords)
      (call t e function positional keywords) := by
  refine call_related (Alike.isCongruence name) (h.same function hn) (h.defaults function) ?_
    positional keywords
  intro f hf
  refine invoke_alike ?_
  rwa [h.named function f hf]

theorem evaluateWith_alike (h : SameWithout name s t d e) (x : Expr)
    (hx : Avoids name x.functions) : Alike name (evaluateWith s d x) (evaluateWith t e x) :=
  evaluateWith_related (Alike.isCongruence name) h.assigned x fun function hf =>
    call_alike h (hx function hf)

end Evaluation

end SassData
