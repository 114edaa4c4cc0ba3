import Mathlib.Data.List.Forall2
import SassData.Proofs.Future.CallbackMachine

/-!
# How far futures have come

A derived future waits for one callback or for those of a combination, or a job is under way for it,
or it is what its origin makes of the others. What has become of the plan of a job is the same plan
with futures in the place of what has been begun. Both are kept by every step, so they hold along
all runs, and also while jobs that make further futures are under way.
-/

namespace SassData.Future

set_option autoImplicit false

open State (Settles)

variable {α : Type}

/-! ## What becomes of a plan -/

/-- What a plan has become: in the place of what has been begun there are futures, made from a place
on. -/
inductive Becomes (made : List (Origin α)) (restart : α → Plan α) (low : Nat) :
    Plan α → Plan α → Prop
  | kept (plan : Plan α) : Becomes made restart low plan plan
  | awaited {p t : Nat} {next : α → Plan α} (hlow : low ≤ t)
    (hmade : made[t]? = some (.converted p next restart)) :
    Becomes made restart low (.await p next) (.existing t)
  | restarted {p t : Nat} (hlow : low ≤ t)
    (hmade : made[t]? = some (.converted p restart restart)) :
    Becomes made restart low (.again p) (.existing t)
  | items {plans nexts : List (Plan α)} {build : List α → Outcome α}
    (h : List.Forall₂ (Becomes made restart low) plans nexts) :
    Becomes made restart low (.gather plans build) (.gather nexts build)
  | gathered {plans : List (Plan α)} {items : List (Item α)} {build : List α → Outcome α} {t : Nat}
    (h : List.Forall₂ (Becomes made restart low) plans (items.map Item.plan))
    (hne : Item.places items ≠ []) (hmade : made[t]? = some (.gathered items build)) :
    Becomes made restart low (.gather plans build) (.existing t)
  | built {plans : List (Plan α)} {values : List α} {build : List α → Outcome α}
    (h : List.Forall₂ (Becomes made restart low) plans (values.map .done)) :
    Becomes made restart low (.gather plans build) (Answer.ofOutcome (build values)).plan
  | failing {front back : List (Plan α)} {items : List (Item α)} {plan : Plan α}
    {failure : Failure} {build : List α → Outcome α}
    (h : List.Forall₂ (Becomes made restart low) front (items.map Item.plan))
    (hp : Becomes made restart low plan (.failed failure)) :
    Becomes made restart low (.gather (front ++ plan :: back) build) (.failed failure)

section

variable {made more : List (Origin α)} {restart : α → Plan α} {low : Nat} {plan next : Plan α}

/-- Induction over what becomes of a plan, with the items of combinations side by side. -/
theorem Becomes.induct {motive : Plan α → Plan α → Prop} (kept : ∀ plan, motive plan plan)
    (awaited : ∀ {p t : Nat} {next : α → Plan α}, low ≤ t →
      made[t]? = some (.converted p next restart) →
        motive (.await p next) (.existing t))
    (restarted : ∀ {p t : Nat}, low ≤ t →
      made[t]? = some (.converted p restart restart) →
        motive (.again p) (.existing t))
    (items : ∀ {plans nexts : List (Plan α)} {build : List α → Outcome α},
      List.Forall₂ motive plans nexts → motive (.gather plans build) (.gather nexts build))
    (gathered : ∀ {plans : List (Plan α)} {items : List (Item α)} {build : List α → Outcome α}
      {t : Nat}, List.Forall₂ motive plans (items.map Item.plan) → Item.places items ≠ [] →
        made[t]? = some (.gathered items build) → motive (.gather plans build) (.existing t))
    (built : ∀ {plans : List (Plan α)} {values : List α} {build : List α → Outcome α},
      List.Forall₂ motive plans (values.map .done) →
        motive (.gather plans build) (Answer.ofOutcome (build values)).plan)
    (failing : ∀ {front back : List (Plan α)} {items : List (Item α)} {plan : Plan α}
      {failure : Failure} {build : List α → Outcome α},
      List.Forall₂ motive front (items.map Item.plan) → motive plan (.failed failure) →
        motive (.gather (front ++ plan :: back) build) (.failed failure))
    (h : Becomes made restart low plan next) : motive plan next := by
  refine @Becomes.rec α made restart low (fun plan next _ => motive plan next)
    (fun plans nexts _ => List.Forall₂ motive plans nexts) ?_ ?_ ?_ ?_ ?_ ?_ ?_ ?_ ?_ plan next h
  · exact kept
  · exact awaited
  · exact restarted
  · exact fun _ => items
  · exact fun _ hne hmade ih => gathered ih hne hmade
  · exact fun _ => built
  · exact fun _ _ => failing
  · exact .nil
  · exact fun _ _ => .cons

theorem getElem?_of_isPrefix {β : Type} {xs ys : List β} (h : xs <+: ys) {i : Nat} {b : β}
    (hi : xs[i]? = some b) : ys[i]? = some b := by
  obtain ⟨rest, rfl⟩ := h
  obtain ⟨hlt, -⟩ := List.getElem?_eq_some_iff.mp hi
  rw [List.getElem?_append_left hlt]
  exact hi

theorem Becomes.mono (hm : made <+: more) (h : Becomes made restart low plan next) :
    Becomes more restart low plan next := by
  refine h.induct .kept ?awaited ?restarted .items ?gathered .built .failing
  case awaited =>
    intro p t next hlow hmade
    exact .awaited hlow (getElem?_of_isPrefix hm hmade)
  case restarted =>
    intro p t hlow hmade
    exact .restarted hlow (getElem?_of_isPrefix hm hmade)
  case gathered =>
    intro plans items build t ih hne hmade
    exact .gathered ih hne (getElem?_of_isPrefix hm hmade)

theorem exists_of_forall₂_append_cons {β γ : Type} {R : β → γ → Prop} {xs : List β}
    {front : List γ} {c : γ} {back : List γ} (h : List.Forall₂ R xs (front ++ c :: back)) :
    ∃ first b others, xs = first ++ b :: others ∧ List.Forall₂ R first front ∧ R b c ∧
      List.Forall₂ R others back := by
  have hfirst := List.forall₂_take_append xs front (c :: back) h
  have hrest := List.forall₂_drop_append xs front (c :: back) h
  obtain ⟨b, others, hb, hothers, hdrop⟩ := List.forall₂_cons_right_iff.mp hrest
  refine ⟨_, b, others, ?_, hfirst, hb, hothers⟩
  rw [← hdrop, List.take_append_drop]

theorem plan_ne_gather (answer : Answer α) (plans : List (Plan α)) (build : List α → Outcome α) :
    answer.plan ≠ .gather plans build := by
  cases answer <;> exact nofun

theorem Becomes.exists_items {nexts : List (Plan α)} {build : List α → Outcome α}
    (h : Becomes made restart low plan (.gather nexts build)) :
    ∃ plans, plan = .gather plans build ∧
      List.Forall₂ (Becomes made restart low) plans nexts := by
  generalize hnext : Plan.gather nexts build = next at h
  cases h with
  | kept =>
    subst hnext
    exact ⟨nexts, rfl, List.forall₂_same.mpr fun plan _ => .kept plan⟩
  | items h =>
    cases hnext
    exact ⟨_, rfl, h⟩
  | built => exact absurd hnext.symm (plan_ne_gather _ _ _)
  | awaited | restarted | gathered | failing => cases hnext

theorem Becomes.eq_of_await {p : Nat} {f : α → Plan α}
    (h : Becomes made restart low plan (.await p f)) : plan = .await p f := by
  generalize hnext : Plan.await p f = next at h
  cases h with
  | kept => rfl
  | @built _ values build _ =>
    cases hanswer : Answer.ofOutcome (build values) <;> rw [hanswer] at hnext <;> cases hnext
  | _ => cases hnext

theorem Becomes.eq_of_again {p : Nat} (h : Becomes made restart low plan (.again p)) :
    plan = .again p := by
  generalize hnext : Plan.again p = next at h
  cases h with
  | kept => rfl
  | @built _ values build _ =>
    cases hanswer : Answer.ofOutcome (build values) <;> rw [hanswer] at hnext <;> cases hnext
  | _ => cases hnext

theorem Becomes.eq_of_answer {answer : Answer α}
    (h : Becomes made restart low answer.plan next) : next = answer.plan := by
  generalize hplan : answer.plan = plan at h
  cases h with
  | kept => rfl
  | items | gathered | built | failing => exact absurd hplan (plan_ne_gather _ _ _)
  | awaited | restarted => cases answer <;> cases hplan

theorem plan_injective {answer other : Answer α} (h : answer.plan = other.plan) :
    answer = other := by
  cases answer <;> cases other <;> cases h <;> rfl

/-- A step forward leads to what the plan becomes with the future that is made. -/
theorem Becomes.advance {origin : Option (Origin α)} {later : Plan α}
    (ha : Advances restart made.length next origin later) (hlow : low ≤ made.length)
    (h : Becomes made restart low plan next) :
    Becomes (made ++ origin.toList) restart low plan later := by
  have hold {plan next : Plan α} (h : Becomes made restart low plan next)
      (origin : Option (Origin α)) : Becomes (made ++ origin.toList) restart low plan next :=
    h.mono (List.prefix_append _ _)
  have holds {plans nexts : List (Plan α)}
      (h : List.Forall₂ (Becomes made restart low) plans nexts) (origin : Option (Origin α)) :
      List.Forall₂ (Becomes (made ++ origin.toList) restart low) plans nexts :=
    h.imp fun _ _ h => hold h origin
  have hnew (origin : Origin α) :
      (made ++ (some origin).toList)[made.length]? = some origin := List.getElem?_concat_length
  induction ha generalizing plan with
  | await source next =>
    rw [h.eq_of_await]
    exact .awaited hlow (hnew _)
  | again source =>
    rw [h.eq_of_again]
    exact .restarted hlow (hnew _)
  | gather items build hne =>
    obtain ⟨plans, rfl, hplans⟩ := h.exists_items
    exact .gathered (holds hplans _) hne (hnew _)
  | build values build =>
    obtain ⟨plans, rfl, hplans⟩ := h.exists_items
    exact .built (holds hplans none)
  | fail front failure rest build =>
    obtain ⟨plans, rfl, hplans⟩ := h.exists_items
    obtain ⟨first, plan, back, rfl, hfirst, hp, -⟩ := exists_of_forall₂_append_cons hplans
    exact .failing (holds hfirst none) (hold hp none)
  | item front rest build _ ih =>
    obtain ⟨plans, rfl, hplans⟩ := h.exists_items
    obtain ⟨first, plan, back, rfl, hfirst, hp, hback⟩ := exists_of_forall₂_append_cons hplans
    exact .items (List.rel_append (holds hfirst _) (.cons (ih hp) (holds hback _)))

end

theorem Item.map_result?_congr {known more : Nat → Option (Outcome α)} {items : List (Item α)}
    (h : ∀ q ∈ places items, known q = more q) :
    items.map (result? known) = items.map (result? more) := by
  refine List.map_congr_left fun item hi => ?_
  cases item with
  | value a => rfl
  | future place => exact h place (List.mem_filterMap.mpr ⟨_, hi, rfl⟩)

namespace Machine

/-! ## Progress -/

/-- How far a future has come that was made in a certain way. -/
inductive Progress (m : Machine α) (target : Nat) : Origin α → Prop
  | source (hw : m.work target = ([], [])) : Progress m target .source
  | converting {p : Nat} {next restart : α → Plan α} (hs : m.state target = .pending)
    (hw : m.work target = ([(p, .convert target next restart)], [])) :
    Progress m target (.converted p next restart)
  | working {p : Nat} {next restart : α → Plan α} {a : α} {plan : Plan α}
    (hs : m.state target = .pending) (hp : m.known p = some (.ok a))
    (hb : Becomes m.made restart (target + 1) (next a) plan)
    (hw : m.work target = ([], [⟨some target, plan, restart⟩])) :
    Progress m target (.converted p next restart)
  | forwarding {p q : Nat} {next restart : α → Plan α} {a : α} (hs : m.state target = .pending)
    (hp : m.known p = some (.ok a))
    (hb : Becomes m.made restart (target + 1) (next a) (.existing q))
    (hw : m.work target = ([(q, .forward target)], [])) :
    Progress m target (.converted p next restart)
  | failed {p : Nat} {next restart : α → Plan α} {failure : Failure}
    (hs : m.state target = .failed failure) (hp : m.known p = some (.error failure))
    (hw : m.work target = ([], [])) : Progress m target (.converted p next restart)
  | answered {p : Nat} {next restart : α → Plan α} {a : α} {answer : Answer α}
    {outcome : Outcome α} (hs : m.state target = .ofOutcome outcome)
    (hp : m.known p = some (.ok a))
    (hb : Becomes m.made restart (target + 1) (next a) answer.plan)
    (ha : answer.result? m.known = some outcome) (hw : m.work target = ([], [])) :
    Progress m target (.converted p next restart)
  | counting {items : List (Item α)} {build : List α → Outcome α} {places : List Nat}
    (hs : m.state target = .pending) (hne : places ≠ [])
    (hin : ∀ p ∈ places, p ∈ Item.places items)
    (hknown : ∀ p ∈ Item.places items, p ∈ places ∨ m.known p ≠ none)
    (hcount : m.remaining target = places.length)
    (hw : m.work target = (places.map fun p => (p, .count target items build), [])) :
    Progress m target (.gathered items build)
  | gathered {items : List (Item α)} {build : List α → Outcome α}
    (hs : m.state target = .ofResult (Plan.combine build (items.map (Item.result? m.known))))
    (hknown : ∀ p ∈ Item.places items, m.known p ≠ none) (hw : m.work target = ([], [])) :
    Progress m target (.gathered items build)

theorem map_result?_extends {m n : Machine α} (h : Extends m.known n.known)
    {items : List (Item α)} (hknown : ∀ p ∈ Item.places items, m.known p ≠ none) :
    items.map (Item.result? n.known) = items.map (Item.result? m.known) := by
  refine Item.map_result?_congr fun q hq => ?_
  obtain ⟨outcome, ho⟩ := Option.ne_none_iff_exists'.mp (hknown q hq)
  rw [h q outcome ho, ho]

/-- A future comes no further as long as nothing is done for it. -/
theorem Progress.frame {m n : Machine α} {target : Nat} {origin : Origin α}
    (h : Progress m target origin) (hmade : m.made <+: n.made)
    (hstate : n.state target = m.state target) (hwork : n.work target = m.work target)
    (hremaining : n.remaining target = m.remaining target) (hknown : Extends m.known n.known) :
    Progress n target origin := by
  cases h with
  | source hw => exact .source (hwork.trans hw)
  | converting hs hw => exact .converting (hstate.trans hs) (hwork.trans hw)
  | working hs hp hb hw =>
    exact .working (hstate.trans hs) (hknown _ _ hp) (hb.mono hmade) (hwork.trans hw)
  | forwarding hs hp hb hw =>
    exact .forwarding (hstate.trans hs) (hknown _ _ hp) (hb.mono hmade) (hwork.trans hw)
  | failed hs hp hw => exact .failed (hstate.trans hs) (hknown _ _ hp) (hwork.trans hw)
  | answered hs hp hb ha hw =>
    have hresult := Answer.result?_extends (fun q _ => hknown q) ha
    exact .answered (hstate.trans hs) (hknown _ _ hp) (hb.mono hmade) hresult (hwork.trans hw)
  | counting hs hne hin hplaces hcount hw =>
    refine .counting (hstate.trans hs) hne hin ?_ (hremaining.trans hcount) (hwork.trans hw)
    intro p hp
    exact (hplaces p hp).imp_right (known_ne_none hknown)
  | gathered hs hplaces hw =>
    refine .gathered ?_ (fun p hp => known_ne_none hknown (hplaces p hp)) (hwork.trans hw)
    rw [hstate, hs, map_result?_extends hknown hplaces]

theorem eq_of_singleton {β : Type} {x y : β} {left right : List β} (h : [x] = left ++ y :: right) :
    left = [] ∧ right = [] ∧ x = y := by
  cases left with
  | nil =>
    cases h
    exact ⟨rfl, rfl, rfl⟩
  | cons z left =>
    have hlength := congrArg List.length h
    simp at hlength

section Own

variable {m : Machine α} {target place p : Nat} {next restart : α → Plan α} {a : α}

/-- The callback of a conversion begins its job, or the failure of the source is its own. -/
theorem progress_convert (hs : m.state target = .pending)
    (hlt : target < m.states.length) (hp : (m.state place).isPending = false)
    (hw : m.work target = ([], [])) :
    Progress (m.call (m.state place) (.convert target next restart)) target
      (.converted place next restart) := by
  obtain ⟨outcome, ho⟩ := exists_result? hp
  rw [call, ho]
  cases outcome with
  | error failure =>
    exact .failed (state_settle m hlt hs _) (extends_settle m target _ place _ ho) hw
  | ok a =>
    refine .working hs ho (.kept _) ?_
    rw [work, List.filter_cons_of_pos (by simp)]
    exact congrArg (fun w => (w.1, _ :: w.2)) hw

theorem progress_answer {answer : Answer α} {outcome : Outcome α}
    (hs : m.state target = .pending) (hlt : target < m.states.length)
    (hw : m.work target = ([], [])) (hp : m.known p = some (.ok a))
    (hb : Becomes m.made restart (target + 1) (next a) answer.plan)
    (ha : answer.result? m.known = some outcome) :
    Progress (m.settle target (.ofOutcome outcome)) target (.converted p next restart) := by
  have hextends := extends_settle m target (.ofOutcome outcome)
  exact .answered (state_settle m hlt hs _) (hextends p _ hp) hb
    (Answer.result?_extends (fun q _ => hextends q) ha) hw

/-- The answer of the job of a conversion settles it, or it waits for the future that this is. -/
theorem progress_conclude {answer : Answer α} (hs : m.state target = .pending)
    (hlt : target < m.states.length) (hp : m.known p = some (.ok a))
    (hb : Becomes m.made restart (target + 1) (next a) answer.plan)
    (hw : m.work target = ([], [])) :
    Progress (m.conclude target answer) target (.converted p next restart) := by
  have hsettle {outcome : Outcome α} (ha : answer.result? m.known = some outcome) :=
    progress_answer hs hlt hw hp hb ha
  cases answer with
  | value b => exact @hsettle (.ok b) rfl
  | failure failure => exact @hsettle (.error failure) rfl
  | future q =>
    refine .forwarding hs hp hb ?_
    rw [conclude, work, List.filter_cons_of_pos (by simp [Callback.target])]
    exact congrArg (fun w => (_ :: w.1, w.2)) hw

theorem progress_forward (hs : m.state target = .pending) (hlt : target < m.states.length)
    (hp : (m.state place).isPending = false) (hw : m.work target = ([], []))
    (hknown : m.known p = some (.ok a))
    (hb : Becomes m.made restart (target + 1) (next a) (.existing place)) :
    Progress (m.call (m.state place) (.forward target)) target (.converted p next restart) := by
  obtain ⟨outcome, ho⟩ := exists_result? hp
  rw [call, ho]
  exact @progress_answer _ m target p next restart a (.future place) _ hs hlt hw hknown hb ho

/-- A combination waits for one future less, or is put together if there is none left. -/
theorem progress_count {items : List (Item α)} {build : List α → Outcome α} {places : List Nat}
    (hs : m.state target = .pending) (hlt : target < m.states.length)
    (hp : (m.state place).isPending = false) (hin : ∀ p ∈ places, p ∈ Item.places items)
    (hknown : ∀ p ∈ Item.places items, p = place ∨ p ∈ places ∨ m.known p ≠ none)
    (hcount : m.remaining target = places.length + 1)
    (hw : m.work target = (places.map fun p => (p, .count target items build), [])) :
    Progress (m.call (m.state place) (.count target items build)) target
      (.gathered items build) := by
  obtain ⟨outcome, ho⟩ := exists_result? hp
  have hothers : ∀ p ∈ Item.places items, p ∈ places ∨ m.known p ≠ none := by
    intro p hitem
    rcases hknown p hitem with rfl | hrest
    · exact Or.inr (Option.ne_none_iff_exists'.mpr ⟨outcome, ho⟩)
    · exact hrest
  have hremaining : m.remaining target - 1 = places.length := by rw [hcount, Nat.add_sub_cancel]
  rw [call, hremaining]
  cases places with
  | nil =>
    -- This was the last one, so every future of the combination is settled now.
    have hall : ∀ p ∈ Item.places items, m.known p ≠ none :=
      fun p hitem => (hothers p hitem).resolve_left List.not_mem_nil
    let counted : Machine α := { m with remaining := Function.update m.remaining target 0 }
    let state : State α := .ofResult (Plan.combine build (items.map (Item.result? m.known)))
    have hextends : Extends m.known (counted.settle target state).known :=
      extends_settle counted target state
    refine .gathered ?_ (fun p hitem => known_ne_none hextends (hall p hitem)) hw
    refine (state_settle counted hlt hs state).trans ?_
    exact congrArg (fun results => State.ofResult (Plan.combine build results))
      (map_result?_extends hextends hall).symm
  | cons q rest =>
    exact .counting hs (List.cons_ne_nil q rest) hin hothers (Function.update_self _ _ _) hw

variable {origin : Origin α}

theorem Progress.call {before after : List (Nat × Callback α)} {callback : Callback α}
    (h : Progress m target origin) (hw : m.waiting = before ++ (place, callback) :: after)
    (ht : callback.target = target) (hp : (m.state place).isPending = false)
    (hlt : target < m.states.length) :
    Progress (Machine.call { m with waiting := before ++ after } (m.state place) callback)
      target origin := by
  obtain ⟨left, right, tasks, hwork, hrest⟩ := work_split hw
  rw [ht] at hwork hrest
  have hnone {jobs : List (Task α)} (hempty : m.work target = ([], jobs)) : False := by
    rw [hwork] at hempty
    exact List.append_ne_nil_of_right_ne_nil left (List.cons_ne_nil _ _)
      (congrArg Prod.fst hempty)
  have hone {entry : Nat × Callback α} (hw : m.work target = ([entry], [])) :
      entry = (place, callback) ∧
        work { m with waiting := before ++ after } target = ([], []) := by
    rw [hwork] at hw
    obtain ⟨hcallbacks, rfl⟩ := Prod.mk.inj hw
    obtain ⟨rfl, rfl, heq⟩ := eq_of_singleton hcallbacks.symm
    exact ⟨heq, hrest⟩
  cases h with
  | source hempty | working _ _ _ hempty => exact (hnone hempty).elim
  | failed _ _ hempty | answered _ _ _ _ hempty => exact (hnone hempty).elim
  | gathered _ _ hempty => exact (hnone hempty).elim
  | converting hs hw =>
    obtain ⟨heq, hrest⟩ := hone hw
    cases heq
    exact progress_convert hs hlt hp hrest
  | forwarding hs hknown hb hw =>
    obtain ⟨heq, hrest⟩ := hone hw
    cases heq
    exact progress_forward hs hlt hp hrest hknown hb
  | @counting items build places hs hne hin hknown hcount hw =>
    -- The one that is called is among the places that are still waited for.
    rw [hwork] at hw
    obtain ⟨hcallbacks, rfl⟩ := Prod.mk.inj hw
    obtain ⟨first, tail, rfl, rfl, htail⟩ := List.map_eq_append_iff.mp hcallbacks.symm
    obtain ⟨q, last, rfl, heq, rfl⟩ := List.map_eq_cons_iff.mp htail
    cases heq
    rw [← List.map_append] at hrest
    have hperm : (first ++ place :: last).Perm (place :: (first ++ last)) := List.perm_middle
    refine progress_count hs hlt hp ?_ ?_ (hcount.trans hperm.length_eq) hrest
    · intro p hwaiting
      exact hin p (hperm.mem_iff.mpr (List.mem_cons_of_mem place hwaiting))
    · intro p hitem
      rw [← or_assoc, ← List.mem_cons, ← hperm.mem_iff]
      exact hknown p hitem

theorem Progress.of_task {before after : List (Task α)} {plan : Plan α} {restart : α → Plan α}
    (h : Progress m target origin)
    (ht : m.tasks = before ++ ⟨some target, plan, restart⟩ :: after) :
    ∃ p next a, origin = .converted p next restart ∧ m.state target = .pending ∧
      m.known p = some (.ok a) ∧
      Becomes m.made restart (target + 1) (next a) plan ∧
      ∀ others : List (Task α), (∀ task ∈ others, task.owner = some target) →
        work { m with tasks := before ++ (others ++ after) } target = ([], others) := by
  obtain ⟨callbacks, left, right, hwork, hrest⟩ := work_split_task ht
  have hnone {entries : List (Nat × Callback α)} (hempty : m.work target = (entries, [])) :
      False := by
    rw [hwork] at hempty
    exact List.append_ne_nil_of_right_ne_nil left (List.cons_ne_nil _ _)
      (congrArg Prod.snd hempty)
  cases h with
  | source hempty | converting _ hempty => exact (hnone hempty).elim
  | forwarding _ _ _ hempty | failed _ _ hempty => exact (hnone hempty).elim
  | answered _ _ _ _ hempty | gathered _ _ hempty => exact (hnone hempty).elim
  | counting _ _ _ _ _ hempty => exact (hnone hempty).elim
  | @working p next restart a plan hs hp hb hw =>
    rw [hwork] at hw
    obtain ⟨rfl, htasks⟩ := Prod.mk.inj hw
    obtain ⟨rfl, rfl, heq⟩ := eq_of_singleton htasks.symm
    cases heq
    refine ⟨p, next, a, rfl, hs, hp, hb, fun others ho => ?_⟩
    rw [hrest others ho, List.append_nil, List.nil_append]

end Own

/-! ## Sound machines -/

/-- Every future is as far as what is under way for it says, and nothing is under way for others. -/
structure IsSound (m : Machine α) : Prop where
  length : m.states.length = m.made.length
  progress : ∀ target origin, m.made[target]? = some origin → Progress m target origin
  gathers : ∀ (target : Nat) (items : List (Item α)) (build : List α → Outcome α),
    m.made[target]? = some (.gathered items build) → Item.places items ≠ []
  targets : ∀ entry ∈ m.waiting, entry.2.target < m.states.length
  owners : ∀ task ∈ m.tasks, ∀ target, task.owner = some target → target < m.states.length

variable {m n : Machine α}

theorem isSound_empty : IsSound (empty : Machine α) :=
  ⟨rfl, nofun, nofun, nofun, nofun⟩

/-- It is enough that the one future is as far as it is to be whose work changes. -/
theorem IsSound.changes {target : Nat} (h : m.IsSound) (hc : Changes target m n)
    (htarget : target < m.states.length)
    (hp : ∀ origin, m.made[target]? = some origin → Progress n target origin) : n.IsSound where
  length := by rw [hc.length, hc.made, h.length]
  progress q origin hq := by
    rw [hc.made] at hq
    by_cases ht : q = target
    · subst ht
      exact hp origin hq
    · exact (h.progress q origin hq).frame hc.made_prefix (hc.state q ht)
        (hc.work q ht) (hc.remaining q ht) (extends_of_settles hc.settles)
  gathers := hc.made ▸ h.gathers
  targets entry he := by
    rw [hc.length]
    rcases hc.targets entry he with he | ht
    · exact h.targets entry he
    · rwa [ht]
  owners task ht q hq := by
    rw [hc.length]
    rcases hc.owners task ht with ht | ho
    · exact h.owners task ht q hq
    · rw [hq] at ho
      cases ho
      exact htarget

theorem IsSound.settle (h : m.IsSound) {place : Nat} (hmade : m.made[place]? = some .source)
    (state : State α) : (m.settle place state).IsSound := by
  obtain ⟨hlt, -⟩ := List.getElem?_eq_some_iff.mp hmade
  refine h.changes (changes_settle m place state) (h.length ▸ hlt) fun origin ho => ?_
  rw [hmade] at ho
  cases ho
  cases h.progress place .source hmade with
  | source hw => exact .source hw

theorem IsSound.assign (h : m.IsSound) {tasks : List (Task α)}
    (hwork : ∀ q, work { m with tasks := tasks } q = m.work q)
    (howners : ∀ task ∈ tasks, task ∈ m.tasks ∨ task.owner = none) :
    IsSound { m with tasks := tasks } where
  length := h.length
  progress q origin hq :=
    (h.progress q origin hq).frame (List.prefix_refl _) rfl (hwork q) rfl fun _ _ => id
  gathers := h.gathers
  targets := h.targets
  owners task ht q hq := by
    rcases howners task ht with ht | ho
    · exact h.owners task ht q hq
    · rw [hq] at ho
      cases ho

theorem IsSound.work_eq_nil (h : m.IsSound) {q : Nat} (hq : m.states.length ≤ q) :
    m.work q = ([], []) := by
  rw [work, Prod.mk.injEq, List.filter_eq_nil_iff, List.filter_eq_nil_iff]
  constructor
  · intro entry he
    have hlt := (h.targets entry he).trans_le hq
    simpa using Nat.ne_of_lt hlt
  · intro task ht ho
    have hlt := h.owners task ht q (of_decide_eq_true ho)
    omega

theorem length_make (m : Machine α) (origin : Origin α) :
    (m.make origin).states.length = m.states.length + 1 := by
  rw [make, List.length_append]
  rfl

theorem progress_make (hwork : m.work m.states.length = ([], [])) {origin : Origin α}
    (hne : ∀ items build, origin = .gathered items build → Item.places items ≠ []) :
    Progress (m.make origin) m.states.length origin := by
  have hnew := work_make m origin m.states.length
  rw [if_pos rfl, hwork, List.nil_append] at hnew
  have hpending : (m.make origin).state m.states.length = .pending :=
    (state_make m origin _).trans (state_of_le (Nat.le_refl _))
  cases origin with
  | source => exact .source hnew
  | converted p next restart => exact .converting hpending hnew
  | gathered items build =>
    refine .counting hpending (hne items build rfl) (fun _ => id) (fun _ => Or.inl) ?_ hnew
    exact (Function.update_self _ _ _).trans (List.length_map _)

theorem IsSound.make (h : m.IsSound) {origin : Origin α}
    (hne : ∀ items build, origin = .gathered items build → Item.places items ≠ []) :
    (m.make origin).IsSound where
  length := by rw [length_make, h.length, Machine.make, List.length_append]; rfl
  progress q other hq := by
    rcases of_getElem?_concat hq with hq | ⟨rfl, rfl⟩
    · obtain ⟨hlt, -⟩ := List.getElem?_eq_some_iff.mp hq
      have ht : q ≠ m.states.length := Nat.ne_of_lt (h.length ▸ hlt)
      refine (h.progress q other hq).frame (List.prefix_append _ _) (state_make m origin q) ?_ ?_ ?_
      · rw [work_make, if_neg ht, List.append_nil]
      · exact Function.update_of_ne ht _ _
      · rw [known_make]
        exact fun _ _ => id
    · rw [← h.length]
      exact progress_make (h.work_eq_nil (Nat.le_refl _)) hne
  gathers q items build hq := by
    rcases of_getElem?_concat hq with hq | ⟨-, hq⟩
    · exact h.gathers q items build hq
    · exact hne items build hq.symm
  targets entry he := by
    rw [length_make]
    rcases List.mem_append.mp he with he | he
    · exact Nat.lt_succ_of_lt (h.targets entry he)
    · rw [Origin.target_of_mem he]
      exact Nat.lt_succ_self _
  owners task ht q hq := by
    rw [length_make]
    exact Nat.lt_succ_of_lt (h.owners task ht q hq)

theorem Advances.places_ne {restart : α → Plan α} {place : Nat} {plan next : Plan α}
    {items : List (Item α)} {build : List α → Outcome α}
    (h : Advances restart place plan (some (.gathered items build)) next) :
    Item.places items ≠ [] := by
  generalize hmade : some (Origin.gathered items build) = made at h
  induction h with
  | await | again | build | fail => cases hmade
  | gather _ _ hne =>
    cases hmade
    exact hne
  | item _ _ _ _ ih => exact ih hmade

theorem IsSound.makeAny (h : m.IsSound) {restart : α → Plan α} {plan next : Plan α}
    {made : Option (Origin α)} (ha : Advances restart m.states.length plan made next) :
    (m.makeAny made).IsSound := by
  cases made with
  | none => exact h
  | some origin =>
    refine h.make ?_
    rintro items build rfl
    exact Advances.places_ne ha

theorem made_makeAny (m : Machine α) (made : Option (Origin α)) :
    (m.makeAny made).made = m.made ++ made.toList := by
  cases made with
  | none => exact (List.append_nil _).symm
  | some origin => rfl

theorem length_le_makeAny (m : Machine α) (made : Option (Origin α)) :
    m.states.length ≤ (m.makeAny made).states.length := by
  cases made with
  | none => exact Nat.le_refl _
  | some origin => rw [makeAny, length_make]; exact Nat.le_succ _

theorem state_makeAny (m : Machine α) (made : Option (Origin α)) (q : Nat) :
    (m.makeAny made).state q = m.state q := by
  cases made with
  | none => rfl
  | some origin => exact state_make m origin q

theorem makeAny_tasks (m : Machine α) (made : Option (Origin α)) (tasks : List (Task α)) :
    makeAny { m with tasks := tasks } made = { m.makeAny made with tasks := tasks } := by
  cases made <;> rfl

theorem tasks_makeAny (m : Machine α) (made : Option (Origin α)) :
    (m.makeAny made).tasks = m.tasks := by
  cases made <;> rfl

theorem work_replace_caller {before after : List (Task α)} {job next : Job α}
    (ht : m.tasks = before ++ ⟨none, job⟩ :: after) (q : Nat) :
    work { m with tasks := before ++ ⟨none, next⟩ :: after } q = m.work q := by
  rw [work, work, ht, List.filter_append, List.filter_append, List.filter_cons_of_neg (by simp),
    List.filter_cons_of_neg (by simp)]

inductive Waits (m : Machine α) (place : Nat) : Callback α → Prop
  | convert {target : Nat} {next restart : α → Plan α}
    (hmade : m.made[target]? = some (.converted place next restart)) :
    Waits m place (.convert target next restart)
  | forward {target p : Nat} {next restart : α → Plan α} {a : α}
    (hmade : m.made[target]? = some (.converted p next restart)) (hp : m.known p = some (.ok a))
    (hb : Becomes m.made restart (target + 1) (next a) (.existing place)) :
    Waits m place (.forward target)
  | count {target : Nat} {items : List (Item α)} {build : List α → Outcome α}
    (hmade : m.made[target]? = some (.gathered items build)) :
    Waits m place (.count target items build)

theorem IsSound.waits (h : m.IsSound) {place : Nat} {callback : Callback α}
    (hw : (place, callback) ∈ m.waiting) : Waits m place callback := by
  have htarget := h.targets _ hw
  rw [h.length] at htarget
  have hmem : (place, callback) ∈ (m.work callback.target).1 :=
    List.mem_filter.mpr ⟨hw, decide_eq_true rfl⟩
  obtain ⟨origin, hmade⟩ : ∃ origin, m.made[callback.target]? = some origin :=
    ⟨_, List.getElem?_eq_getElem htarget⟩
  cases h.progress _ origin hmade with
  | source hw | working _ _ _ hw | failed _ _ hw | answered _ _ _ _ hw | gathered _ _ hw =>
    rw [hw] at hmem
    cases hmem
  | converting _ hw =>
    rw [hw] at hmem
    obtain ⟨rfl, hcallback⟩ := Prod.mk.inj (List.mem_singleton.mp hmem)
    rw [hcallback]
    exact .convert hmade
  | forwarding _ hp hb hw =>
    rw [hw] at hmem
    obtain ⟨rfl, hcallback⟩ := Prod.mk.inj (List.mem_singleton.mp hmem)
    rw [hcallback]
    exact .forward hmade hp hb
  | counting _ _ _ _ _ hw =>
    rw [hw] at hmem
    obtain ⟨p, -, hentry⟩ := List.mem_map.mp hmem
    obtain ⟨-, hcallback⟩ := Prod.mk.inj hentry
    rw [← hcallback]
    exact .count hmade

theorem IsSound.works (h : m.IsSound) {target : Nat} {plan : Plan α} {restart : α → Plan α}
    (ht : ⟨some target, plan, restart⟩ ∈ m.tasks) :
    ∃ p next a, m.made[target]? = some (.converted p next restart) ∧
      m.known p = some (.ok a) ∧ Becomes m.made restart (target + 1) (next a) plan := by
  have htarget := h.owners _ ht target rfl
  rw [h.length] at htarget
  obtain ⟨origin, hmade⟩ : ∃ origin, m.made[target]? = some origin :=
    ⟨_, List.getElem?_eq_getElem htarget⟩
  obtain ⟨before, after, hsplit⟩ := List.append_of_mem ht
  obtain ⟨p, next, a, rfl, -, hp, hb, -⟩ := (h.progress target origin hmade).of_task hsplit
  exact ⟨p, next, a, hmade, hp, hb⟩

/-- Every step keeps a machine sound. -/
theorem IsSound.steps (h : m.IsSound) (hs : Steps m n) : n.IsSound := by
  cases hs with
  | @call before after place callback hw hp =>
    have hmem : (place, callback) ∈ m.waiting := by rw [hw]; simp
    have htarget := h.targets _ hmem
    exact h.changes (changes_called hw _) htarget
      fun origin ho => (h.progress _ origin ho).call hw rfl hp htarget
  | @conclude before after target answer restart ht =>
    have hmem : (⟨some target, answer.plan, restart⟩ : Task α) ∈ m.tasks := by rw [ht]; simp
    have htarget := h.owners _ hmem target rfl
    refine h.changes (changes_concluded ht answer) htarget fun origin ho => ?_
    obtain ⟨p, next, a, rfl, hpending, hp, hb, hwork⟩ := (h.progress _ origin ho).of_task ht
    exact progress_conclude hpending htarget hp hb (hwork [] (List.forall_mem_nil _))
  | @advance before after owner plan next restart made ht ha =>
    rw [makeAny_tasks]
    have hmade := h.makeAny ha
    have htasks : (m.makeAny made).tasks = before ++ ⟨owner, plan, restart⟩ :: after :=
      (tasks_makeAny m made).trans ht
    cases owner with
    | none =>
      refine hmade.assign (work_replace_caller htasks) fun task hmem => ?_
      rw [htasks]
      simp only [List.mem_append, List.mem_cons] at hmem ⊢
      rcases hmem with hm | rfl | hm
      · exact Or.inl (Or.inl hm)
      · exact Or.inr rfl
      · exact Or.inl (Or.inr (Or.inr hm))
    | some target =>
      have hmem : (⟨some target, plan, restart⟩ : Task α) ∈ m.tasks := by rw [ht]; simp
      have hlt := h.owners _ hmem target rfl
      have hone : ∀ task ∈ [(⟨some target, next, restart⟩ : Task α)], task.owner = some target :=
        List.forall_mem_singleton.mpr rfl
      refine hmade.changes (changes_replace htasks hone)
        (hlt.trans_le (length_le_makeAny m made)) fun origin ho => ?_
      -- The job was under way for the same future before the new one was made.
      have ho' : m.made[target]? = some origin := by
        rw [made_makeAny, List.getElem?_append_left (h.length ▸ hlt)] at ho
        exact ho
      obtain ⟨p, next, a, rfl, hpending, hp, hb, -⟩ := (h.progress _ origin ho').of_task ht
      obtain ⟨-, -, -, -, -, -, -, hwork⟩ := (hmade.progress _ _ ho).of_task htasks
      refine .working (a := a) ?_ ?_ ?_ (hwork _ hone)
      · exact (state_makeAny m made target).trans hpending
      · exact (congrArg State.result? (state_makeAny m made p)).trans hp
      · have hadvance := hb.advance (h.length ▸ ha) (h.length ▸ hlt)
        rw [← made_makeAny] at hadvance
        exact hadvance

end Machine

end SassData.Future
