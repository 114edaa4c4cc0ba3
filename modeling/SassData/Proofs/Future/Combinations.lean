import Mathlib.Data.List.Forall2
import SassData.Future

/-!
# Combinations

What a combination comes to is what its items come to, put together, whether they are known at once
or come late. Nothing comes of it as long as one of them is missing, and after that the first
failure among them is its own.
-/

namespace SassData

set_option autoImplicit false

namespace Plan

variable {α : Type} {known again : Nat → Option (Outcome α)}

theorem results_eq_map (items : List (Plan α)) :
    results known again items = items.map (result? known again) := by
  induction items with
  | nil => rfl
  | cons plan rest ih => rw [results, ih, List.map_cons]

theorem prospects_cons_eq_value {plan : Plan α} {rest : List (Plan α)} {values : List α}
    (h : prospects (plan :: rest) = .value values) :
    ∃ a others, plan.prospect = .value a ∧ prospects rest = .value others ∧
      values = a :: others := by
  rw [prospects] at h
  cases hp : plan.prospect <;> cases hr : prospects rest <;> rw [hp, hr] at h <;> cases h
  exact ⟨_, _, rfl, rfl, rfl⟩

theorem prospects_map_done (values : List α) : prospects (values.map done) = .value values := by
  induction values with
  | nil => rfl
  | cons a rest ih =>
    rw [List.map_cons, prospects, ih]
    rfl

theorem prospects_congr {plans nexts : List (Plan α)}
    (h : List.Forall₂ (fun plan next => plan.prospect = next.prospect) plans nexts) :
    prospects plans = prospects nexts := by
  induction h with
  | nil => rfl
  | cons hp _ ih => rw [prospects, prospects, hp, ih]

theorem prospects_append_failure {front back : List (Plan α)} {plan : Plan α} {failure : Failure}
    (hf : ∀ other, prospects front ≠ .failure other) (hp : plan.prospect = .failure failure) :
    prospects (front ++ plan :: back) = .failure failure := by
  induction front with
  | nil =>
    rw [List.nil_append, prospects, hp]
    rfl
  | cons first rest ih =>
    rw [prospects] at hf
    have hrest : prospects (rest ++ plan :: back) = .failure failure := by
      refine ih fun other ho => ?_
      rw [ho] at hf
      cases hfirst : first.prospect <;> rw [hfirst] at hf <;> exact hf _ rfl
    rw [List.cons_append, prospects, hrest]
    cases hfirst : first.prospect with
    | failure other =>
      rw [hfirst] at hf
      exact absurd rfl (hf other)
    | value | later => rfl

theorem ofOutcome_injective {outcome other : Outcome α}
    (h : Prospect.ofOutcome outcome = .ofOutcome other) : outcome = other := by
  cases outcome <;> cases other <;> cases h <;> rfl

theorem result?_of_prospect {plan : Plan α} {outcome : Outcome α}
    (h : plan.prospect = .ofOutcome outcome) : plan.result? known again = some outcome := by
  cases plan with
  | done | failed => cases outcome <;> cases h <;> rfl
  | gather items build =>
    rw [prospect] at h
    rw [result?]
    cases hp : prospects items with
    | value values =>
      rw [hp] at h
      exact congrArg some (ofOutcome_injective h)
    | failure failure =>
      rw [hp] at h
      cases outcome <;> cases h
      rfl
    | later =>
      rw [hp] at h
      cases outcome <;> cases h
  | existing | await | again => cases outcome <;> cases h

theorem result?_of_prospect_value {plan : Plan α} {a : α} (h : plan.prospect = .value a) :
    plan.result? known again = some (.ok a) :=
  result?_of_prospect h

theorem result?_of_prospect_failure {plan : Plan α} {failure : Failure}
    (h : plan.prospect = .failure failure) :
    plan.result? known again = some (.error failure) :=
  result?_of_prospect h

theorem results_of_prospects {items : List (Plan α)} {values : List α}
    (h : prospects items = .value values) :
    results known again items = (values.map fun a => .ok a).map some := by
  induction items generalizing values with
  | nil =>
    cases h
    rfl
  | cons plan rest ih =>
    obtain ⟨a, others, ha, ho, rfl⟩ := prospects_cons_eq_value h
    rw [results, ih ho, result?_of_prospect_value ha, List.map_cons, List.map_cons]

theorem collect_map_some (outcomes : List (Outcome α)) :
    collect (outcomes.map some) = some (outcomes.mapM id) := by
  have hsome : (outcomes.map some).mapM id = some outcomes := by
    induction outcomes with
    | nil => rfl
    | cons outcome rest ih =>
      rw [List.map_cons, List.mapM_cons, ih]
      rfl
  rw [collect, hsome, Option.map_some]

theorem mapM_map_ok (values : List α) :
    (values.map fun a => (.ok a : Outcome α)).mapM id = .ok values := by
  induction values with
  | nil => rfl
  | cons a rest ih =>
    rw [List.map_cons, List.mapM_cons, ih]
    rfl

theorem collect_eq_none {results : List (Option (Outcome α))} (h : none ∈ results) :
    collect results = none := by
  have hnone : results.mapM id = none := by
    induction results with
    | nil => cases h
    | cons result rest ih =>
      rw [List.mapM_cons]
      cases result with
      | none => rfl
      | some outcome =>
        have hrest : none ∈ rest := by simpa using h
        rw [ih hrest]
        rfl
  rw [collect, hnone, Option.map_none]

theorem result?_gather {items : List (Plan α)} {build : List α → Outcome α}
    (hf : ∀ failure, prospects items ≠ .failure failure)
    (hb : ∀ values, ∃ a, build values = .ok a) :
    (gather items build).result? known again = combine build (results known again items) := by
  rw [result?]
  cases hp : prospects items with
  | value values =>
    obtain ⟨a, ha⟩ := hb values
    rw [results_of_prospects hp, combine, collect_map_some, mapM_map_ok]
    dsimp only
    rw [ha]
  | failure failure => exact absurd hp (hf failure)
  | later => rfl

end Plan

end SassData
