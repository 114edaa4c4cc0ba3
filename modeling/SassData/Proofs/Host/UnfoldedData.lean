import Mathlib.Data.List.Forall2
import SassData.Proofs.Future.Combinations
import SassData.Proofs.Host.StylePlans

/-!
# Data with futures put in

Which futures stand in data, which are come to through results, and what data unfolds to once their
results are put in. The plan for data comes to nothing as long as a future in it has come to
nothing, and to the value of what the data unfolds to if all are settled.
-/

namespace SassData

set_option autoImplicit false

namespace Host

/-! ## Futures in data -/

/-- A future stands in data. What futures have come to is not looked at. -/
inductive Shows (options : ToStyle) : Host → Nat → Prop
  | future (place : Nat) : Shows options (.future place) place
  | part {h item : Host} {items : List Host} {place : Nat} (hp : h.parts? = some items)
      (hi : item ∈ items) (hs : Shows options item place) : Shows options h place
  | called {c : Callable Host} {arguments : List Host} {r : Host} {place : Nat}
      (hc : options.callables = .call arguments) (hr : c.call arguments = .ok r)
      (hs : Shows options r place) : Shows options (.callable c) place

/-- A future is come to from data by way of results that are there. -/
inductive Reaches (options : ToStyle) (known : Nat → Option (Outcome Host)) : Host → Nat → Prop
  | shown {h : Host} {place : Nat} (hs : Shows options h place) : Reaches options known h place
  | through {h r : Host} {place last : Nat} (hs : Shows options h place)
      (hr : known place = some (.ok r)) (hl : Reaches options known r last) :
      Reaches options known h last

/-- A future comes up again in its own result. -/
def Circle (options : ToStyle) (known : Nat → Option (Outcome Host)) (place : Nat) : Prop :=
  ∃ r, known place = some (.ok r) ∧ Reaches options known r place

/-- Data with every future replaced by its result, and that by its own in turn, or the failure that
comes first in the order of the data. A callable that is called is replaced by one that gives what
its result comes to. -/
inductive Unfolds (options : ToStyle) (known : Nat → Option (Outcome Host)) :
    Host → Outcome Host → Prop
  | scalar {h : Host} (hs : h.isScalar = true) : Unfolds options known h (.ok h)
  | left (c : Callable Host) (hc : options.callables = .leave) :
      Unfolds options known (.callable c) (.ok (.callable c))
  | called {c : Callable Host} {arguments : List Host} {r : Host} {outcome : Outcome Host}
      (hc : options.callables = .call arguments) (hr : c.call arguments = .ok r)
      (hu : Unfolds options known r outcome) :
      Unfolds options known (.callable c) ((fun r => .callable (.constant r)) <$> outcome)
  | compound {h : Host} {items : List Host} {outcomes : List (Outcome Host)}
      (hp : h.parts? = some items) (hi : List.Forall₂ (Unfolds options known) items outcomes) :
      Unfolds options known h (h.withParts <$> outcomes.mapM id)
  | resolved {place : Nat} {r : Host} {outcome : Outcome Host}
      (hr : known place = some (.ok r)) (hu : Unfolds options known r outcome) :
      Unfolds options known (.future place) outcome
  | failed {place : Nat} {failure : Failure} (hr : known place = some (.error failure)) :
      Unfolds options known (.future place) (.error failure)

section

variable {options : ToStyle} {known : Nat → Option (Outcome Host)}

theorem eq_of_shows_future {place q : Nat}
    (hs : Shows options (.future place) q) : q = place := by
  cases hs with
  | future => rfl
  | part hp => cases hp

theorem shows_iff_of_parts {h : Host} {items : List Host} (hp : h.parts? = some items)
    {place : Nat} : Shows options h place ↔ ∃ item ∈ items, Shows options item place := by
  constructor
  · intro hs
    cases hs with
    | future | called => cases hp
    | part hq hi hs =>
      rw [hp] at hq
      cases hq
      exact ⟨_, hi, hs⟩
  · rintro ⟨item, hi, hs⟩
    exact .part hp hi hs

theorem shows_iff_of_called {c : Callable Host} {arguments : List Host} {r : Host}
    (hc : options.callables = .call arguments) (hr : c.call arguments = .ok r) {place : Nat} :
    Shows options (.callable c) place ↔ Shows options r place := by
  constructor
  · intro hs
    cases hs with
    | part hp => cases hp
    | called hd hq hs =>
      rw [hc] at hd
      cases hd
      rw [hr] at hq
      cases hq
      exact hs
  · exact .called hc hr

theorem not_shows_of_isScalar {h : Host} (hs : h.isScalar = true) (place : Nat) :
    ¬ Shows options h place := by
  intro hp
  cases hp with
  | future | called => cases hs
  | part hp =>
    rw [parts?_of_isScalar hs] at hp
    cases hp

theorem not_shows_of_left (hc : options.callables = .leave) (c : Callable Host) (place : Nat) :
    ¬ Shows options (.callable c) place := by
  intro hp
  cases hp with
  | part hp => cases hp
  | called hd =>
    rw [hc] at hd
    cases hd

theorem converts_of_parts {h : Host} {items : List Host} (hh : Converts options h)
    (hp : h.parts? = some items) : ∀ item ∈ items, Converts options item := by
  cases hh with
  | scalar hs =>
    rw [parts?_of_isScalar hs] at hp
    cases hp
  | compound hq hi =>
    rw [hp] at hq
    cases hq
    exact hi
  | future | left | called => cases hp

theorem converts_of_called {c : Callable Host} {arguments : List Host} {r : Host}
    (hh : Converts options (.callable c)) (hc : options.callables = .call arguments)
    (hr : c.call arguments = .ok r) : Converts options r := by
  cases hh with
  | scalar hs => cases hs
  | compound hp => cases hp
  | left _ hl =>
    rw [hl] at hc
    cases hc
  | called hd hq hconverts =>
    rw [hc] at hd
    cases hd
    rw [hr] at hq
    cases hq
    exact hconverts

/-! ## What is known at once -/

def Ready (options : ToStyle) (h : Host) : Prop :=
  (∃ place, Shows options h place) ∧ (stylePlan options h).prospect = .later ∨
    (∀ place, ¬ Shows options h place) ∧
      ∃ v, (stylePlan options h).prospect = .value (.value v)

theorem prospects_of_ready {items : List Host} (hi : ∀ item ∈ items, Ready options item) :
    (∃ item ∈ items, ∃ place, Shows options item place) ∧
        Plan.prospects (items.map (stylePlan options)) = .later ∨
      (∀ item ∈ items, ∀ place, ¬ Shows options item place) ∧
        ∃ vs : List Value,
          Plan.prospects (items.map (stylePlan options)) = .value (vs.map value) := by
  induction items with
  | nil => exact Or.inr ⟨fun _ h => (List.not_mem_nil h).elim, [], rfl⟩
  | cons item rest ih =>
    have hrest := ih fun other ho => hi other (List.mem_cons_of_mem item ho)
    rw [List.map_cons, Plan.prospects]
    rcases hi item List.mem_cons_self with ⟨hshown, hp⟩ | ⟨hnone, v, hp⟩
    · refine Or.inl ⟨⟨item, List.mem_cons_self, hshown⟩, ?_⟩
      rcases hrest with ⟨-, hr⟩ | ⟨-, vs, hr⟩
      · rw [hp, hr]
        rfl
      · rw [hp, hr]
        rfl
    · rcases hrest with ⟨⟨other, ho, hshown⟩, hr⟩ | ⟨hnones, vs, hr⟩
      · refine Or.inl ⟨⟨other, List.mem_cons_of_mem item ho, hshown⟩, ?_⟩
        rw [hp, hr]
        rfl
      · refine Or.inr ⟨?_, v :: vs, ?_⟩
        · intro other ho
          rcases List.mem_cons.mp ho with rfl | ho
          · exact hnone
          · exact hnones other ho
        · rw [hp, hr]
          rfl

theorem ready_of_converts {h : Host} (hh : Converts options h) : Ready options h := by
  induction hh with
  | @scalar h v hs hv =>
    refine Or.inr ⟨not_shows_of_isScalar hs, v, ?_⟩
    rw [hv]
    rfl
  | future place =>
    refine Or.inl ⟨⟨place, .future place⟩, ?_⟩
    rw [stylePlan_future]
    rfl
  | @compound h items hp _ ih =>
    rw [Ready, stylePlan_of_parts hp, Plan.prospect]
    rcases prospects_of_ready ih with ⟨⟨item, hi, place, hs⟩, hlater⟩ | ⟨hnone, vs, hvalue⟩
    · refine Or.inl ⟨⟨place, .part hp hi hs⟩, ?_⟩
      rw [hlater]
    · refine Or.inr ⟨?_, h.assembled options vs, ?_⟩
      · intro place hs
        obtain ⟨item, hi, hs⟩ := (shows_iff_of_parts hp).mp hs
        exact hnone item hi place hs
      · rw [hvalue]
        dsimp only
        rw [map_styleValue]
        rfl
  | left c hc =>
    refine Or.inr ⟨not_shows_of_left hc c, .null, ?_⟩
    rw [stylePlan_left hc]
    rfl
  | called hc hr hh ih =>
    simp only [Ready, shows_iff_of_called hc hr, stylePlan_called hc hr hh]
    exact ih

/-! ## What comes late -/

theorem not_failure_of_converts {items : List Host} (hi : ∀ item ∈ items, Converts options item)
    (failure : Failure) : Plan.prospects (items.map (stylePlan options)) ≠ .failure failure := by
  rcases prospects_of_ready fun item h => ready_of_converts (hi item h) with ⟨-, hp⟩ | ⟨-, vs, hp⟩
  · rw [hp]
    intro h
    cases h
  · rw [hp]
    intro h
    cases h

theorem result?_of_parts {again : Nat → Option (Outcome Host)} {h : Host} {items : List Host}
    (hp : h.parts? = some items) (hi : ∀ item ∈ items, Converts options item) :
    (stylePlan options h).result? known again =
      Plan.combine (fun values => .ok (.value (h.assembled options (values.map styleValue))))
        (items.map fun item => (stylePlan options item).result? known again) := by
  have hbuild (values : List Host) :
      ∃ a, (.ok (.value (h.assembled options (values.map styleValue))) : Outcome Host) = .ok a :=
    ⟨_, rfl⟩
  rw [stylePlan_of_parts hp, Plan.result?_gather (not_failure_of_converts hi) hbuild,
    Plan.results_eq_map, List.map_map]
  rfl

theorem result?_eq_none {again : Nat → Option (Outcome Host)} {h : Host} {place : Nat}
    (hh : Converts options h) (hs : Shows options h place) (ha : again place = none) :
    (stylePlan options h).result? known again = none := by
  induction hs with
  | future place =>
    rw [stylePlan_future, Plan.result?]
    exact ha
  | part hp hi _ ih =>
    have hitems := converts_of_parts hh hp
    have hnone := ih (hitems _ hi) ha
    rw [result?_of_parts hp hitems, Plan.combine, Plan.collect_eq_none]
    rw [← hnone]
    exact List.mem_map_of_mem hi
  | called hc hr _ ih =>
    have hconverts := converts_of_called hh hc hr
    rw [stylePlan_called hc hr hconverts]
    exact ih hconverts ha

def Gives (options : ToStyle) : Outcome Host → Outcome Host → Prop
  | .error failure, result => result = .error failure
  | .ok h, result =>
    ∃ v, (stylePlan options h).prospect = .value (.value v) ∧ result = .ok (.value v)

theorem gives_all {outcomes results : List (Outcome Host)}
    (h : List.Forall₂ (Gives options) outcomes results) :
    (∃ failure, outcomes.mapM id = .error failure ∧ results.mapM id = .error failure) ∨
      ∃ (hs : List Host) (vs : List Value), outcomes.mapM id = .ok hs ∧
        hs.length = outcomes.length ∧ results.mapM id = .ok (vs.map value) ∧
          Plan.prospects (hs.map (stylePlan options)) = .value (vs.map value) := by
  induction h with
  | nil => exact Or.inr ⟨[], [], rfl, rfl, rfl, rfl⟩
  | @cons outcome result outcomes results hg _ ih =>
    rw [List.mapM_cons, List.mapM_cons]
    cases outcome with
    | error failure =>
      cases hg
      exact Or.inl ⟨failure, rfl, rfl⟩
    | ok h =>
      obtain ⟨v, hv, rfl⟩ := hg
      rcases ih with ⟨failure, ho, hr⟩ | ⟨hs, vs, ho, hl, hr, hp⟩
      · rw [ho, hr]
        exact Or.inl ⟨failure, rfl, rfl⟩
      · rw [ho, hr]
        refine Or.inr ⟨h :: hs, v :: vs, rfl, congrArg (· + 1) hl, rfl, ?_⟩
        rw [List.map_cons, Plan.prospects, hv, hp]
        rfl

/-- Data unfolds in one way only, and its plan has come to what that gives. -/
def Settled (options : ToStyle) (known again : Nat → Option (Outcome Host)) (h : Host) : Prop :=
  ∃ outcome result, Unfolds options known h outcome ∧
    (∀ other, Unfolds options known h other → other = outcome) ∧
      (stylePlan options h).result? known again = some result ∧ Gives options outcome result

theorem settled_all {again : Nat → Option (Outcome Host)} {items : List Host}
    (hi : ∀ item ∈ items, Settled options known again item) :
    ∃ outcomes results, List.Forall₂ (Unfolds options known) items outcomes ∧
      (∀ others, List.Forall₂ (Unfolds options known) items others → others = outcomes) ∧
        (items.map fun item => (stylePlan options item).result? known again) = results.map some ∧
          List.Forall₂ (Gives options) outcomes results := by
  induction items with
  | nil =>
    refine ⟨[], [], .nil, ?_, rfl, .nil⟩
    intro others ho
    cases ho
    rfl
  | cons item rest ih =>
    obtain ⟨outcome, result, hu, hone, hres, hg⟩ := hi item List.mem_cons_self
    obtain ⟨outcomes, results, hus, hones, hress, hgs⟩ :=
      ih fun other ho => hi other (List.mem_cons_of_mem item ho)
    refine ⟨outcome :: outcomes, result :: results, .cons hu hus, ?_, ?_, .cons hg hgs⟩
    · intro others ho
      cases ho with
      | cons h hs => rw [hone _ h, hones _ hs]
    · rw [List.map_cons, hres, hress, List.map_cons]

theorem settled_of_parts {again : Nat → Option (Outcome Host)} {h : Host} {items : List Host}
    (hp : h.parts? = some items) (hh : ∀ item ∈ items, Converts options item)
    (hi : ∀ item ∈ items, Settled options known again item) :
    Settled options known again h := by
  obtain ⟨outcomes, results, hu, hone, hres, hg⟩ := settled_all hi
  have hlength := hu.length_eq
  have hunique (other : Outcome Host) (ho : Unfolds options known h other) :
      other = h.withParts <$> outcomes.mapM id := by
    cases ho with
    | scalar hs =>
      rw [parts?_of_isScalar hs] at hp
      cases hp
    | compound hq hs =>
      rw [hp] at hq
      cases hq
      rw [hone _ hs]
    | left | called | resolved | failed => cases hp
  have hresult : (stylePlan options h).result? known again = Plan.combine
      (fun values => .ok (.value (h.assembled options (values.map styleValue))))
        (results.map some) := by
    rw [result?_of_parts hp hh, hres]
  rw [Plan.combine, Plan.collect_map_some] at hresult
  rcases gives_all hg with ⟨failure, ho, hr⟩ | ⟨hs, vs, ho, hl, hr, hvs⟩
  · refine ⟨_, .error failure, .compound hp hu, hunique, ?_, ?_⟩
    · rw [hresult, hr]
    · rw [ho]
      rfl
  · refine ⟨_, .ok (.value (h.assembled options vs)), .compound hp hu, hunique, ?_, ?_⟩
    · rw [hresult, hr]
      dsimp only
      rw [map_styleValue]
    · rw [ho]
      have hcount := hl.trans hlength.symm
      refine ⟨h.assembled options vs, ?_, rfl⟩
      rw [stylePlan_of_parts (parts?_withParts hp hcount), Plan.prospect, hvs,
        assembled_withParts hp hcount]
      dsimp only
      rw [map_styleValue]
      rfl

theorem settled_of_shows {again : Nat → Option (Outcome Host)} {h : Host} (hh : Converts options h)
    (ha : ∀ place, Shows options h place → Settled options known again (.future place)) :
    Settled options known again h := by
  induction hh with
  | @scalar h v hs hv =>
    refine ⟨.ok h, .ok (.value v), .scalar hs, ?_, ?_, v, ?_, rfl⟩
    · intro other ho
      cases ho with
      | scalar => rfl
      | compound hp =>
        rw [parts?_of_isScalar hs] at hp
        cases hp
      | left | called | resolved | failed => cases hs
    · rw [hv, Plan.result?]
    · rw [hv, Plan.prospect]
  | future place => exact ha place (.future place)
  | compound hp hi ih =>
    exact settled_of_parts hp hi fun item hitem =>
      ih item hitem fun place hs => ha place (.part hp hitem hs)
  | left c hc =>
    refine ⟨.ok (.callable c), .ok (.value .null), .left c hc, ?_, ?_, .null, ?_, rfl⟩
    · intro other ho
      cases ho with
      | scalar hs => cases hs
      | left => rfl
      | called hd =>
        rw [hc] at hd
        cases hd
      | compound hp => cases hp
    · rw [stylePlan_left hc, Plan.result?]
    · rw [stylePlan_left hc, Plan.prospect]
  | @called c arguments r hc hr hh ih =>
    obtain ⟨outcome, result, hu, hone, hres, hg⟩ := ih fun place hs => ha place (.called hc hr hs)
    refine ⟨_, result, .called hc hr hu, ?_, ?_, ?_⟩
    · intro other ho
      cases ho with
      | scalar hs => cases hs
      | left _ hl =>
        rw [hl] at hc
        cases hc
      | called hd hq hs =>
        rw [hc] at hd
        cases hd
        rw [hr] at hq
        cases hq
        rw [hone _ hs]
      | compound hp => cases hp
    · rw [stylePlan_called hc hr hh]
      exact hres
    · cases outcome with
      | error failure => exact hg
      | ok r' =>
        obtain ⟨v, hv, hresult⟩ := hg
        refine ⟨v, ?_, hresult⟩
        rw [stylePlan_constant hc]
        exact hv

end

end Host

end SassData
