import SassData.Proofs.Evaluation.RelatedScopes

/-!
# Evaluation with and without a function

Two scopes that differ in one function only evaluate an expression alike as long as that function is
not called. A run of the one that succeeds and notes no call of the function is a run of the other.
A run with the function is followed step by step; what counts is what it notes.
-/

namespace SassData

set_option autoImplicit false

/-- Runs of `m` that succeed without a call of the name are runs of `n`. Whatever succeeds adds to
what was noted before. -/
def Mirrors (name : String) {α : Type} (m n : Traced α) : Prop :=
  ∀ trace a after, m trace = .ok (a, after) → ∃ new, after = new ++ trace ∧
    ((∀ i ∈ new, i.function ≠ name) → n trace = .ok (a, after))

namespace Mirrors

variable {name : String} {α β : Type}

theorem pure (a : α) : Mirrors name (pure a) (pure a) := by
  intro trace b after h
  cases h
  exact ⟨[], rfl, fun _ => rfl⟩

theorem throw (failure : Failure) (n : Traced α) : Mirrors name (throw failure) n := by
  intro trace a after h
  cases h

theorem refl {m : Traced α} (h : ∀ trace a after, m trace = .ok (a, after) →
    ∃ new, after = new ++ trace) : Mirrors name m m := by
  intro trace a after hm
  obtain ⟨new, hnew⟩ := h trace a after hm
  exact ⟨new, hnew, fun _ => hm⟩

theorem bind {m n : Traced α} {k l : α → Traced β} (h : Mirrors name m n)
    (hk : ∀ a, Mirrors name (k a) (l a)) : Mirrors name (m >>= k) (n >>= l) := by
  intro trace b after hb
  obtain ⟨a, middle, hm, hb⟩ := Traced.bind_eq_ok_iff.mp hb
  obtain ⟨new, rfl, hnew⟩ := h trace a middle hm
  obtain ⟨newer, rfl, hnewer⟩ := hk a (new ++ trace) b after hb
  refine ⟨newer ++ new, (List.append_assoc newer new trace).symm, ?_⟩
  intro hno
  have hn := hnew fun i hi => hno i (List.mem_append_right newer hi)
  have hl := hnewer fun i hi => hno i (List.mem_append_left new hi)
  exact Traced.bind_eq_ok_iff.mpr ⟨a, new ++ trace, hn, hl⟩

theorem isCongruence (name : String) : IsCongruence fun _ => Mirrors name :=
  ⟨pure, fun failure => throw failure _, bind⟩

end Mirrors

/-- Whatever succeeds notes a call of the name. -/
def Calls (name : String) {α : Type} (m : Traced α) : Prop :=
  ∀ trace a after, m trace = .ok (a, after) →
    ∃ new, after = new ++ trace ∧ ∃ i ∈ new, i.function = name

namespace Calls

variable {name : String} {α β : Type}

theorem mirrors {m : Traced α} (h : Calls name m) (n : Traced α) : Mirrors name m n := by
  intro trace a after hm
  obtain ⟨new, rfl, i, hi, hname⟩ := h trace a after hm
  exact ⟨new, rfl, fun hno => absurd hname (hno i hi)⟩

theorem bind {m n : Traced α} {k : α → Traced β} (h : Mirrors name m n)
    (hk : ∀ a, Calls name (k a)) : Calls name (m >>= k) := by
  intro trace b after hb
  obtain ⟨a, middle, hm, hb⟩ := Traced.bind_eq_ok_iff.mp hb
  obtain ⟨new, rfl, -⟩ := h trace a middle hm
  obtain ⟨newer, rfl, i, hi, hname⟩ := hk a (new ++ trace) b after hb
  exact ⟨newer ++ new, (List.append_assoc newer new trace).symm, i,
    List.mem_append_left new hi, hname⟩

end Calls

namespace Evaluation

/-! ## Calls -/

theorem invoke_mirrors (name : String) (f : Function) (arguments : List Value) :
    Mirrors name (invoke f arguments) (invoke f arguments) := by
  apply Mirrors.refl
  intro trace v after h
  rw [invoke_apply] at h
  split at h <;> cases h
  exact ⟨[_], rfl⟩

theorem invoke_calls (f : Function) (arguments : List Value) :
    Calls f.signature.name (invoke f arguments) := by
  intro trace v after h
  rw [invoke_apply] at h
  split at h <;> cases h
  exact ⟨[_], rfl, _, List.mem_singleton_self _, rfl⟩

/-- Registries that differ in one function only, which the first has. Every function goes by its
own name, and all defaults are mirrored. -/
structure Without (name : String) (functions others : Registry) (d e : Expr → Traced Value) :
    Prop where
  same : ∀ function, Text.canonicalName function ≠ name →
    functions.find? function = others.find? function
  has : ∀ function, Text.canonicalName function = name → (functions.find? function).isSome
  named : ∀ function f, functions.find? function = some f →
    f.signature.name = Text.canonicalName function
  defaults : ∀ function f, functions.find? function = some f →
    ∀ p ∈ f.signature.parameters, ∀ x, p.default = some x → Mirrors name (d x) (e x)

theorem call_mirrors {name : String} {s t : Scope} {d e : Expr → Traced Value}
    (h : Without name s.functions t.functions d e) (function : String) (positional : List Value)
    (keywords : Named Value) :
    Mirrors name (call s d function positional keywords)
      (call t e function positional keywords) := by
  have hR := Mirrors.isCongruence name
  by_cases hn : Text.canonicalName function = name
  · obtain ⟨f, hf⟩ := Option.isSome_iff_exists.mp (h.has function hn)
    have hname := h.named function f hf
    have hslots (slots : List (Option Value)) :
        Mirrors name (fillSlots d slots (f.signature.parameters.filter (!·.isRest)))
          (fillSlots e slots (f.signature.parameters.filter (!·.isRest))) :=
      fillSlots_related hR (fun p hp => h.defaults function f hf p (List.mem_filter.mp hp).1) slots
    simp only [call, hf]
    refine Calls.mirrors ?_ _
    rw [← hn, ← hname] at hslots ⊢
    exact .bind (lift_related (Mirrors.isCongruence _) _) fun _ =>
      .bind (hslots _) fun _ => invoke_calls f _
  · exact call_related hR (h.same function hn) (h.defaults function)
      (fun f _ => invoke_mirrors name f) positional keywords

structure SameBut (name : String) (s t : Scope) (d e : Expr → Traced Value) : Prop where
  assigned : s.assigned = t.assigned
  calls : ∀ function positional keywords,
    Mirrors name (call s d function positional keywords) (call t e function positional keywords)

theorem evaluateWith_mirrors {name : String} {s t : Scope} {d e : Expr → Traced Value}
    (h : SameBut name s t d e) (x : Expr) :
    Mirrors name (evaluateWith s d x) (evaluateWith t e x) :=
  evaluateWith_related (Mirrors.isCongruence name) h.assigned x fun function _ => h.calls function

end Evaluation

end SassData
