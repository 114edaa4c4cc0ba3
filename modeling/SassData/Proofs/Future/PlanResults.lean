import SassData.Proofs.Future.MachineProgress

/-!
# What futures come to

Whatever is done when, a future comes to nothing else than what its cell has in a store, and once
nothing is left to be done it has come to that. The same holds for the futures that jobs make on
their way, and for the answer that a caller is given.
-/

namespace SassData.Future

set_option autoImplicit false

variable {α : Type}

/-! ## What is known at once -/

section

variable {made : List (Origin α)} {restart : α → Plan α} {low : Nat} {plan next : Plan α}

/-- As much is known at once of what a plan has become as of the plan. -/
theorem Becomes.prospect_eq (h : Becomes made restart low plan next) :
    plan.prospect = next.prospect := by
  refine h.induct (motive := fun plan next => plan.prospect = next.prospect) (fun _ => rfl)
    (fun _ _ => rfl) (fun _ _ => rfl) ?items ?gathered ?built ?failing
  case items =>
    intro plans nexts build ih
    rw [Plan.prospect, Plan.prospect, Plan.prospects_congr ih]
  case gathered =>
    intro plans items build t ih hne _
    have hlater := (Plan.prospects_congr ih).trans (Item.prospects_of_places hne)
    simp only [Plan.prospect, hlater]
  case built =>
    intro plans values build ih
    have hvalues := (Plan.prospects_congr ih).trans (Plan.prospects_map_done values)
    simp only [Plan.prospect, hvalues, Answer.prospect_plan_ofOutcome]
  case failing =>
    intro front back items plan failure build ih hp
    have hfront (other : Failure) : Plan.prospects front ≠ .failure other := by
      rw [Plan.prospects_congr ih]
      exact Item.prospects_ne_failure items other
    simp only [Plan.prospect, Plan.prospects_append_failure hfront hp]

end

namespace Machine

variable {m : Machine α}

/-! ## What is there and what is to be -/

/-- What is there is nothing else than what is to be, and it is that if nothing is left to be
done. -/
structure Approaches (m : Machine α) (actual expected : Option (Outcome α)) : Prop where
  only : ∀ outcome, actual = some outcome → expected = some outcome
  all : m.IsQuiet → ∀ outcome, expected = some outcome → actual = some outcome

theorem approaches_refl (m : Machine α) (result : Option (Outcome α)) :
    Approaches m result result :=
  ⟨fun _ => id, fun _ _ => id⟩

theorem Approaches.trans {first second third : Option (Outcome α)} (h : Approaches m first second)
    (h' : Approaches m second third) : Approaches m first third :=
  ⟨fun outcome ho => h'.only outcome (h.only outcome ho),
    fun hquiet outcome ho => h.all hquiet outcome (h'.all hquiet outcome ho)⟩

theorem Approaches.eq {actual expected : Option (Outcome α)} (h : Approaches m actual expected)
    (hquiet : m.IsQuiet) : actual = expected :=
  Option.ext fun outcome => ⟨h.only outcome, h.all hquiet outcome⟩

theorem Approaches.of_eq_none {expected : Option (Outcome α)}
    (h : m.IsQuiet → expected = none) : Approaches m none expected := by
  refine ⟨nofun, fun hquiet outcome ho => ?_⟩
  rw [h hquiet] at ho
  exact ho

theorem mapM_of_forall₂ {β : Type} {xs ys : List (Option β)}
    (h : List.Forall₂ (fun x y => ∀ b, x = some b → y = some b) xs ys) {bs : List β}
    (hx : xs.mapM id = some bs) : ys.mapM id = some bs := by
  induction h generalizing bs with
  | nil => exact hx
  | cons hxy _ ih =>
    simp only [List.mapM_cons, Option.bind_eq_bind, Option.bind_eq_some_iff, id] at hx ⊢
    obtain ⟨b, hb, others, hothers, hall⟩ := hx
    exact ⟨b, hxy b hb, others, ih hothers, hall⟩

theorem approaches_combine {actuals expecteds : List (Option (Outcome α))}
    (h : List.Forall₂ (Approaches m) actuals expecteds) (build : List α → Outcome α) :
    Approaches m (Plan.combine build actuals) (Plan.combine build expecteds) := by
  constructor
  · intro outcome
    exact Plan.combine_extends fun _ => mapM_of_forall₂ (h.imp fun _ _ ha => ha.only)
  · intro hquiet outcome
    refine Plan.combine_extends fun _ => mapM_of_forall₂ ?_
    exact h.flip.imp fun _ _ ha => ha.all hquiet

/-- A plan has the results that its job comes to once the plan has become another. -/
def IsRead (m : Machine α) (j : Job α) (n : Nat) (plan : Plan α) : Prop :=
  ∀ low next, m.states.length ≤ n + low → Becomes m.made j.restart low plan next →
    Approaches m (next.result? m.known (j.again? m.known n))
      (plan.result? m.known (j.again? m.known n))

section

variable {j : Job α} {t n : Nat}

theorem IsSound.approaches_converted (h : m.IsSound) {p : Nat} {next : α → Plan α}
    (hmade : m.made[t]? = some (.converted p next j.restart))
    (hn : m.states.length ≤ n + (t + 1)) (hnext : ∀ a, IsRead m j n (next a)) :
    Approaches m (m.known t) ((Plan.await p next).result? m.known (j.again? m.known n)) := by
  rw [Plan.result?]
  have hpending (hs : m.state t = .pending) : m.known t = none := by
    rw [known, hs]
    rfl
  cases h.progress t _ hmade with
  | converting hs hw =>
    rw [hpending hs]
    refine .of_eq_none fun hquiet => ?_
    rw [hquiet.known_eq_none_of_work hw (List.mem_singleton_self _)]
  | working hs hp hb hw =>
    rw [hpending hs]
    refine .of_eq_none fun hquiet => ?_
    exact absurd (hquiet.tasks_eq_nil hw) (List.cons_ne_nil _ _)
  | @forwarding _ q _ _ a hs hp hb hw =>
    rw [hpending hs, hp]
    refine .of_eq_none fun hquiet => ?_
    have hread := (hnext a _ _ hn hb).eq hquiet
    rw [Plan.result?, hquiet.known_eq_none_of_work hw (List.mem_singleton_self _)] at hread
    exact hread.symm
  | failed hs hp hw =>
    rw [known, hs, hp]
    exact approaches_refl m _
  | @answered _ _ _ a answer outcome hs hp hb ha hw =>
    have hread := (hnext a _ _ hn hb).only outcome
    rw [Answer.result?_plan] at hread
    rw [hp]
    dsimp only
    rw [hread ha, known, hs]
    cases outcome <;> exact approaches_refl m _

theorem IsSound.approaches_gathered (h : m.IsSound) {items : List (Item α)}
    {build : List α → Outcome α} (hmade : m.made[t]? = some (.gathered items build)) :
    Approaches m (m.known t) (Plan.combine build (items.map (Item.result? m.known))) := by
  cases h.progress t _ hmade with
  | @counting _ _ places hs hne hin hknown hcount hw =>
    rw [known, hs]
    refine .of_eq_none fun hquiet => ?_
    obtain ⟨p, hp⟩ := List.exists_mem_of_ne_nil places hne
    have hnone := hquiet.known_eq_none_of_work hw (List.mem_map_of_mem hp)
    rw [Plan.combine, Plan.collect_eq_none (Item.none_mem_map_result? (hin p hp) hnone)]
  | gathered hs hknown hw =>
    rw [known, hs]
    cases Plan.combine build (items.map (Item.result? m.known)) with
    | none => exact approaches_refl m none
    | some outcome => cases outcome <;> exact approaches_refl m _

theorem approaches_results {plans nexts : List (Plan α)} {low : Nat}
    (hread : ∀ plan ∈ plans, IsRead m j n plan) (hn : m.states.length ≤ n + low)
    (h : List.Forall₂ (Becomes m.made j.restart low) plans nexts) :
    List.Forall₂ (Approaches m) (Plan.results m.known (j.again? m.known n) nexts)
      (Plan.results m.known (j.again? m.known n) plans) := by
  induction h with
  | nil => exact .nil
  | @cons plan next plans nexts hb _ ih =>
    obtain ⟨hplan, hrest⟩ := List.forall_mem_cons.mp hread
    exact .cons (hplan low next hn hb) (ih hrest)

/-- A combination has the results of the combination that it has become. -/
theorem IsSound.isRead_gather (h : m.IsSound) {plans : List (Plan α)}
    (hread : ∀ plan ∈ plans, IsRead m j n plan) (build : List α → Outcome α) :
    IsRead m j n (.gather plans build) := by
  intro low next hn hb
  have hprospect := hb.prospect_eq
  cases hb with
  | kept => exact approaches_refl m _
  | @items _ nexts _ hi =>
    have hresults := approaches_results hread hn hi
    have hprospects : Plan.prospects plans = Plan.prospects nexts :=
      Plan.prospects_congr (hi.imp fun _ _ => Becomes.prospect_eq)
    rw [Plan.result?, Plan.result?, hprospects]
    cases Plan.prospects nexts with
    | value | failure => exact approaches_refl m _
    | later => exact approaches_combine hresults build
  | @gathered _ items _ t hi hne hmade =>
    have hresults := approaches_results hread hn hi
    have hlater : Plan.prospects plans = .later :=
      (Plan.prospects_congr (hi.imp fun _ _ => Becomes.prospect_eq)).trans
        (Item.prospects_of_places hne)
    rw [Item.results_map_plan] at hresults
    rw [Plan.result?, Plan.result?, hlater]
    exact (h.approaches_gathered hmade).trans (approaches_combine hresults build)
  | @built _ values =>
    rw [Answer.prospect_plan_ofOutcome] at hprospect
    rw [Plan.result?_of_prospect hprospect, Answer.result?_plan, Answer.result?_ofOutcome]
    exact approaches_refl m _
  | failing =>
    rw [Plan.result?_of_prospect_failure hprospect]
    exact approaches_refl m _

end

mutual

theorem IsSound.isRead_plan (h : m.IsSound) (j : Job α) (n : Nat)
    (hfewer : ∀ k, n = k + 1 → ∀ plan, IsRead m j k plan) (plan : Plan α) :
    IsRead m j n plan := by
  intro low next hn hb
  match plan with
  | .done a =>
    have hkept : Becomes m.made j.restart low (Answer.value a).plan next := hb
    rw [hkept.eq_of_answer]
    exact approaches_refl m _
  | .failed failure =>
    cases hb
    exact approaches_refl m _
  | .existing place =>
    cases hb
    exact approaches_refl m _
  | .await p f =>
    cases hb with
    | kept => exact approaches_refl m _
    | awaited hlow hmade =>
      exact h.approaches_converted hmade (by omega) fun a => h.isRead_plan j n hfewer (f a)
  | .again p =>
    cases hb with
    | kept => exact approaches_refl m _
    | restarted hlow hmade =>
      cases n with
      | zero =>
        obtain ⟨hlt, -⟩ := List.getElem?_eq_some_iff.mp hmade
        rw [← h.length] at hlt
        omega
      | succ k =>
        have hrest :=
          h.approaches_converted hmade (by omega) fun a => hfewer k rfl (j.restart a)
        rw [Plan.result?] at hrest
        rw [Plan.result?, Plan.result?, Job.again?]
        exact hrest
  | .gather plans build =>
    exact h.isRead_gather (h.isRead_plans j n hfewer plans) build low next hn hb

theorem IsSound.isRead_plans (h : m.IsSound) (j : Job α) (n : Nat)
    (hfewer : ∀ k, n = k + 1 → ∀ plan, IsRead m j k plan) (plans : List (Plan α)) :
    ∀ plan ∈ plans, IsRead m j n plan := by
  match plans with
  | [] => exact List.forall_mem_nil _
  | plan :: rest =>
    exact List.forall_mem_cons.mpr
      ⟨h.isRead_plan j n hfewer plan, h.isRead_plans j n hfewer rest⟩

end

/-- A plan comes to what it has become, with as many results on the way as there are futures. -/
theorem IsSound.isRead (h : m.IsSound) (j : Job α) (n : Nat) (plan : Plan α) :
    IsRead m j n plan := by
  induction n generalizing plan with
  | zero => exact h.isRead_plan j 0 nofun plan
  | succ n ih =>
    refine h.isRead_plan j (n + 1) (fun k hk => ?_) plan
    cases hk
    exact ih

end Machine

end SassData.Future
