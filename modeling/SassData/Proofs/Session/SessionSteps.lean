import SassData.Engine.Session

/-!
# Steps of a run

A chain of steps succeeds where each step does and fails where the first step that does not
succeed fails. Evaluation adds what it has noted; a statement is one evaluation or several.
-/

namespace SassData

set_option autoImplicit false

section Outcomes

variable {α β : Type}

theorem Outcome.bind_eq_ok_iff {x : Outcome α} {f : α → Outcome β} {b : β} :
    x >>= f = .ok b ↔ ∃ a, x = .ok a ∧ f a = .ok b := by
  cases x with
  | error failure =>
    constructor
    · intro h
      cases h
    · rintro ⟨a, h, -⟩
      cases h
  | ok a =>
    constructor
    · intro h
      exact ⟨a, rfl, h⟩
    · rintro ⟨a', h, hb⟩
      cases h
      exact hb

instance (x : Outcome α) (p : α → Bool) : Decidable (∃ a, x = .ok a ∧ p a = true) :=
  match x with
  | .ok a => decidable_of_iff (p a = true) (by simp)
  | .error _ => isFalse nofun

theorem Traced.bind_apply (m : Traced α) (k : α → Traced β) (trace : List Invocation) :
    (m >>= k) trace = m trace >>= fun (a, after) => k a after := rfl

theorem Traced.bind_eq_ok_iff {m : Traced α} {k : α → Traced β} {trace : List Invocation}
    {result : β × List Invocation} :
    (m >>= k) trace = .ok result ↔
      ∃ a middle, m trace = .ok (a, middle) ∧ k a middle = .ok result := by
  rw [Traced.bind_apply, Outcome.bind_eq_ok_iff]
  constructor
  · rintro ⟨⟨a, middle⟩, h⟩
    exact ⟨a, middle, h⟩
  · rintro ⟨a, middle, h⟩
    exact ⟨(a, middle), h⟩

theorem Traced.lift_eq_ok_iff {x : Outcome α} {trace : List Invocation} {a : α}
    {after : List Invocation} :
    (liftM x : Traced α) trace = .ok (a, after) ↔ x = .ok a ∧ after = trace := by
  cases x with
  | error failure =>
    constructor
    · rintro ⟨⟩
    · rintro ⟨⟨⟩, -⟩
  | ok b =>
    constructor
    · rintro ⟨⟩
      exact ⟨rfl, rfl⟩
    · rintro ⟨⟨⟩, rfl⟩
      rfl

end Outcomes

/-- A call notes itself before its function is asked. -/
theorem Evaluation.invoke_apply (f : Function) (arguments : List Value) (trace : List Invocation) :
    invoke f arguments trace = match f.body arguments >>= Reply.awaited with
      | .ok (.value v) => .ok (v, ⟨f.signature.name, arguments⟩ :: trace)
      | .ok h => .error (.notStyleValue f.signature.name h.typeName)
      | .error failure =>
        .error (if failure.isCompileError then failure else .inCall f.signature.name failure) := by
  unfold invoke
  generalize f.body arguments >>= Reply.awaited = reply
  rcases reply with failure | h
  · rfl
  · cases h <;> rfl

theorem Evaluation.exists_of_evaluatePairs_cons {scope : Scope} {default : Expr → Traced Value}
    {before m : List (Value × Value)} {key value : Expr} {pairs : List (Expr × Expr)}
    {trace after : List Invocation}
    (h : evaluatePairs scope default before ((key, value) :: pairs) trace = .ok (m, after)) :
    ∃ k v middle last, evaluateWith scope default key trace = .ok (k, middle) ∧
      hasKey k before = .ok false ∧ evaluateWith scope default value middle = .ok (v, last) ∧
        evaluatePairs scope default (before ++ [(k, v)]) pairs last = .ok (m, after) := by
  rw [evaluatePairs] at h
  obtain ⟨k, middle, hkey, h⟩ := Traced.bind_eq_ok_iff.mp h
  obtain ⟨found, middle', hlift, h⟩ := Traced.bind_eq_ok_iff.mp h
  obtain ⟨hfound, rfl⟩ := Traced.lift_eq_ok_iff.mp hlift
  cases found with
  | true =>
    obtain ⟨u, last, hthrow, -⟩ := Traced.bind_eq_ok_iff.mp h
    cases hthrow
  | false =>
    obtain ⟨v, last, hvalue, h⟩ := Traced.bind_eq_ok_iff.mp h
    exact ⟨k, v, _, last, hkey, hfound, hvalue, h⟩

theorem Session.trace_of_run {s last : Session} {name : String} {e : Expr} {blocks : List String}
    (h : s.run [.assign name e []] = (last, .ok blocks)) :
    ∃ v, s.evaluate e = .ok (v, last.trace) := by
  rw [Session.run] at h
  split at h
  · cases h
  · next next text hstep =>
    obtain rfl : next = last := congrArg Prod.fst h
    rw [Session.step] at hstep
    simp only [List.not_mem_nil, decide_false, Bool.false_and, Bool.false_eq_true,
      if_false] at hstep
    obtain ⟨⟨v, trace⟩, he, hrest⟩ := Outcome.bind_eq_ok_iff.mp hstep
    cases hrest
    exact ⟨v, he⟩

/-- Declarations are evaluated and shown; of the session only what is noted changes. -/
theorem Session.exists_of_declarationLines {s last : Session}
    {declarations : List (String × Expr)} {lines : List String}
    (h : s.declarationLines declarations = .ok (lines, last)) :
    ∃ trace, last = { s with trace := trace } := by
  induction declarations generalizing s lines last with
  | nil =>
    cases h
    exact ⟨s.trace, rfl⟩
  | cons declaration rest ih =>
    rw [declarationLines] at h
    obtain ⟨⟨v, middle⟩, -, h⟩ := Outcome.bind_eq_ok_iff.mp h
    obtain ⟨text, -, h⟩ := Outcome.bind_eq_ok_iff.mp h
    obtain ⟨⟨more, next⟩, hrest, h⟩ := Outcome.bind_eq_ok_iff.mp h
    obtain ⟨trace, hnext⟩ := @ih { s with trace := middle } next more hrest
    cases text <;> cases h <;> exact ⟨trace, hnext⟩

end SassData
