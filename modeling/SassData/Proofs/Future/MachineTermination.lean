import Mathlib.Logic.Hydra
import SassData.Proofs.Future.CallbackMachine

/-!
# All work comes to an end

A callback that is called may leave a job behind, and a job callbacks. As long as nothing is left
behind by itself in this way, a machine gets quiet after so many steps, whatever is done first: each
step puts finitely much in the place of what it does, all of it smaller.
-/

namespace SassData

set_option autoImplicit false

open Relation (CutExpand ReflTransGen)

variable {α : Type}

/-! ## Plans -/

namespace Plan

mutual

/-- How often a job goes on with a plan at most. -/
def size : Plan α → Nat
  | done _ | failed _ | existing _ => 0
  | await .. | again _ => 1
  | gather items _ => sizes items + 1

def sizes : List (Plan α) → Nat
  | [] => 0
  | plan :: rest => size plan + sizes rest

end

theorem sizes_append (plans others : List (Plan α)) :
    sizes (plans ++ others) = sizes plans + sizes others := by
  induction plans with
  | nil => exact (Nat.zero_add _).symm
  | cons plan rest ih => rw [List.cons_append, sizes, sizes, ih, Nat.add_assoc]

inductive Begins (restart : α → Plan α) : Plan α → Nat → (α → Plan α) → Prop
  | await (p : Nat) (next : α → Plan α) : Begins restart (.await p next) p next
  | again (p : Nat) : Begins restart (.again p) p restart
  | item {plans : List (Plan α)} {plan : Plan α} {build : List α → Outcome α} {p : Nat}
    {next : α → Plan α} (hp : plan ∈ plans) (h : Begins restart plan p next) :
    Begins restart (.gather plans build) p next

end Plan

namespace Future

section

variable {made : List (Origin α)} {restart : α → Plan α} {place p : Nat} {plan later : Plan α}
  {origin : Option (Origin α)} {next : α → Plan α}

theorem Answer.size_plan (answer : Answer α) : answer.plan.size = 0 := by
  cases answer <;> rfl

theorem not_begins_answer {answer : Answer α} : ¬ Plan.Begins restart answer.plan p next := by
  intro h
  cases answer <;> cases h

theorem not_advances_answer {answer : Answer α} :
    ¬ Advances restart place answer.plan origin later := by
  intro h
  cases answer <;> cases h

theorem Advances.size_lt (h : Advances restart place plan origin later) :
    later.size < plan.size := by
  induction h with
  | await | again => exact Nat.one_pos
  | gather | fail => exact Nat.succ_pos _
  | build values build =>
    rw [Answer.size_plan]
    exact Nat.succ_pos _
  | item front rest build _ ih =>
    rw [Plan.size, Plan.size, Plan.sizes_append, Plan.sizes_append, Plan.sizes, Plan.sizes]
    omega

theorem Advances.begins {restarted : α → Plan α}
    (h : Advances restart place plan (some (.converted p next restarted)) later) :
    plan.Begins restart p next ∧ restarted = restart := by
  generalize hmade : some (Origin.converted p next restarted) = made at h
  induction h with
  | await q f =>
    cases hmade
    exact ⟨.await p next, rfl⟩
  | again q =>
    cases hmade
    exact ⟨.again p, rfl⟩
  | gather | build | fail => cases hmade
  | item front rest build _ ih =>
    obtain ⟨hb, hr⟩ := ih hmade
    exact ⟨.item (List.mem_append_right _ List.mem_cons_self) hb, hr⟩

theorem Advances.begins_of_later (h : Advances restart place plan origin later)
    (hb : later.Begins restart p next) : plan.Begins restart p next := by
  induction h with
  | await | again | gather | fail => cases hb
  | build values build => exact absurd hb not_begins_answer
  | item front rest build _ ih =>
    cases hb with
    | item hmem hb =>
      rcases List.mem_append.mp hmem with hfront | hrest
      · exact .item (List.mem_append_left _ hfront) hb
      · rcases List.mem_cons.mp hrest with rfl | hrest
        · exact .item (List.mem_append_right _ List.mem_cons_self) (ih hb)
        · exact .item (List.mem_append_right _ (List.mem_cons_of_mem _ hrest)) hb

end

/-! ## What is left behind -/

inductive Work (α : Type)
  | callback (entry : Nat × Callback α)
  | task (task : Task α)

/-- The first is left behind by the second, when nothing else comes of futures than what is known
of them. -/
inductive Leaves (known : Nat → Option (Outcome α)) : Work α → Work α → Prop
  | convert {p target : Nat} {next restart : α → Plan α} {a : α}
    (h : ∀ outcome, known p = some outcome → outcome = .ok a) :
    Leaves known (.task ⟨some target, next a, restart⟩)
      (.callback (p, .convert target next restart))
  | advance {owner : Option Nat} {place : Nat} {plan next : Plan α} {restart : α → Plan α}
    {made : Option (Origin α)} (h : Advances restart place plan made next) :
    Leaves known (.task ⟨owner, next, restart⟩) (.task ⟨owner, plan, restart⟩)
  | begin {owner : Option Nat} {place : Nat} {plan next : Plan α} {restart : α → Plan α}
    {origin : Origin α} {entry : Nat × Callback α}
    (h : Advances restart place plan (some origin) next) (he : entry ∈ origin.callbacks place) :
    Leaves known (.callback entry) (.task ⟨owner, plan, restart⟩)
  | conclude {p target : Nat} {restart : α → Plan α} :
    Leaves known (.callback (p, .forward target)) (.task ⟨some target, .existing p, restart⟩)

section

variable {known : Nat → Option (Outcome α)} {restart : α → Plan α} {place target : Nat}

instance : Std.Irrefl (Leaves known) where
  irrefl work h := by
    cases h with
    | advance h => exact Nat.lt_irrefl _ h.size_lt

theorem acc_forward : Acc (Leaves known) (.callback (place, .forward target)) :=
  ⟨_, nofun⟩

theorem acc_count {items : List (Item α)} {build : List α → Outcome α} :
    Acc (Leaves known) (.callback (place, .count target items build)) :=
  ⟨_, nofun⟩

theorem acc_task {plan : Plan α} (h : ∀ p next, plan.Begins restart p next → ∀ target,
    Acc (Leaves known) (.callback (p, .convert target next restart))) (owner : Option Nat) :
    Acc (Leaves known) (.task ⟨owner, plan, restart⟩) := by
  induction hsize : plan.size using Nat.strongRecOn generalizing plan with
  | ind size ih =>
    refine ⟨_, fun work hwork => ?_⟩
    cases hwork with
    | @advance _ _ _ next _ made ha =>
      exact ih next.size (hsize ▸ ha.size_lt) (fun p f hb => h p f (ha.begins_of_later hb)) rfl
    | @begin _ place _ next _ origin entry ha he =>
      cases origin with
      | source => cases he
      | converted p f restarted =>
        obtain ⟨hb, rfl⟩ := ha.begins
        rw [List.mem_singleton.mp he]
        exact h p f hb place
      | gathered items build =>
        obtain ⟨p, -, rfl⟩ := List.mem_map.mp he
        exact acc_count
    | conclude => exact acc_forward

theorem acc_answer (answer : Answer α) (owner : Option Nat) :
    Acc (Leaves known) (.task ⟨owner, answer.plan, restart⟩) :=
  acc_task (fun _ _ hb => absurd hb not_begins_answer) owner

end

/-! ## Steps -/

namespace Machine

def works (m : Machine α) : Multiset (Work α) :=
  (m.waiting.map Work.callback : Multiset (Work α)) + (m.tasks.map Work.task : Multiset (Work α))

variable {m n : Machine α} {known : Nat → Option (Outcome α)}

theorem works_of_waiting {before after : List (Nat × Callback α)} {entry : Nat × Callback α}
    (h : m.waiting = before ++ entry :: after) :
    m.works = {.callback entry} + works { m with waiting := before ++ after } := by
  have hperm : m.waiting.Perm (entry :: (before ++ after)) := h ▸ List.perm_middle
  have hcallbacks := Multiset.coe_eq_coe.mpr (hperm.map Work.callback)
  rw [works, works, hcallbacks, List.map_cons, ← Multiset.cons_coe, Multiset.cons_add,
    Multiset.singleton_add]

theorem works_of_tasks {before after : List (Task α)} {task : Task α}
    (h : m.tasks = before ++ task :: after) :
    m.works = {.task task} + works { m with tasks := before ++ after } := by
  have hperm : m.tasks.Perm (task :: (before ++ after)) := h ▸ List.perm_middle
  have htasks := Multiset.coe_eq_coe.mpr (hperm.map Work.task)
  rw [works, works, htasks, List.map_cons, ← Multiset.cons_coe, Multiset.add_cons,
    Multiset.singleton_add]

theorem works_wait (m : Machine α) (entry : Nat × Callback α) :
    works { m with waiting := entry :: m.waiting } = {.callback entry} + m.works :=
  @works_of_waiting _ { m with waiting := entry :: m.waiting } [] m.waiting entry rfl

theorem works_begin (m : Machine α) (task : Task α) :
    works { m with tasks := task :: m.tasks } = {.task task} + m.works :=
  @works_of_tasks _ { m with tasks := task :: m.tasks } [] m.tasks task rfl

theorem works_make (m : Machine α) (origin : Origin α) :
    (m.make origin).works =
      ((origin.callbacks m.states.length).map Work.callback : Multiset (Work α)) + m.works := by
  rw [works, make, List.map_append, ← Multiset.coe_add, add_right_comm, add_comm]
  rfl

theorem cutExpand_of_works {rest left : Multiset (Work α)} {work : Work α}
    (hm : m.works = {work} + rest) (hn : n.works = left + rest)
    (h : ∀ other ∈ left, Leaves known other work) :
    CutExpand (Leaves known) n.works m.works := by
  rw [hm, hn, Relation.cutExpand_add_right]
  exact Relation.cutExpand_singleton h

theorem cutExpand_of_done {rest : Multiset (Work α)} {work : Work α}
    (hm : m.works = {work} + rest) (hn : n.works = rest) :
    CutExpand (Leaves known) n.works m.works :=
  cutExpand_of_works hm (hn.trans (zero_add rest).symm) nofun

/-- A step puts smaller work in the place of what is done. -/
theorem Steps.cutExpand (h : Steps m n) (hk : Extends known m.known) :
    CutExpand (Leaves known) n.works m.works := by
  cases h with
  | @call before after place callback hw hp =>
    have hrest := works_of_waiting hw
    obtain ⟨result, hresult⟩ := exists_result? hp
    cases callback with
    | forward target => exact cutExpand_of_done hrest rfl
    | count target items build =>
      refine cutExpand_of_done hrest ?_
      rw [Machine.call]
      split <;> rfl
    | convert target next restart =>
      rw [Machine.call, hresult]
      cases result with
      | error failure => exact cutExpand_of_done hrest rfl
      | ok a =>
        have htask : m.known place = some (.ok a) := hresult
        refine cutExpand_of_works hrest (works_begin _ _) ?_
        intro other ho
        rw [Multiset.mem_singleton.mp ho]
        refine .convert fun outcome hknown => ?_
        rw [hk place outcome hknown] at htask
        exact Option.some.inj htask
  | @advance before after owner plan next restart made ht ha =>
    have hrest := works_of_tasks ht
    let started : Machine α := { m with tasks := before ++ ⟨owner, next, restart⟩ :: after }
    have hstarted : started.works = {.task ⟨owner, next, restart⟩} + _ := works_of_tasks rfl
    cases made with
    | none =>
      refine cutExpand_of_works hrest hstarted ?_
      intro other ho
      rw [Multiset.mem_singleton.mp ho]
      exact .advance ha
    | some origin =>
      refine cutExpand_of_works hrest
        ((works_make started origin).trans (by rw [hstarted, ← add_assoc])) ?_
      intro other ho
      rcases Multiset.mem_add.mp ho with hnew | hnext
      · obtain ⟨entry, he, rfl⟩ := List.mem_map.mp (Multiset.mem_coe.mp hnew)
        exact .begin ha he
      · rw [Multiset.mem_singleton.mp hnext]
        exact .advance ha
  | @conclude before after target answer restart ht =>
    have hrest := works_of_tasks ht
    cases answer with
    | value | failure => exact cutExpand_of_done hrest rfl
    | future place =>
      refine cutExpand_of_works hrest (works_wait _ _) ?_
      intro other ho
      rw [Multiset.mem_singleton.mp ho]
      exact .conclude

def IsFinite (known : Nat → Option (Outcome α)) (m : Machine α) : Prop :=
  ∀ work ∈ m.works, Acc (Leaves known) work

theorem IsFinite.steps (h : m.IsFinite known) (hk : Extends known m.known) (hs : Steps m n) :
    n.IsFinite known :=
  Relation.cutExpand_closed _ (fun hleaves hacc => hacc.inv hleaves) (hs.cutExpand hk) h

/-- A machine gets quiet after so many steps, whatever is done when. -/
theorem IsFinite.acc (h : m.IsFinite known) (hk : Extends known m.known) :
    Acc (fun n m : Machine α => Steps m n) m := by
  have hacc : Acc (CutExpand (Leaves known)) m.works :=
    Relation.acc_of_singleton fun work hw => (h work hw).cutExpand
  generalize hworks : m.works = works at hacc
  induction hacc generalizing m with
  | intro works _ ih =>
    refine ⟨_, fun n hs => ?_⟩
    subst hworks
    have hknown : Extends known n.known :=
      fun place outcome ho => extends_of_settles hs.settles place outcome (hk place outcome ho)
    exact ih n.works (hs.cutExpand hk) (h.steps hk hs) hknown rfl

theorem exists_quiet (h : Acc (fun n m : Machine α => Steps m n) m) :
    ∃ n, ReflTransGen Steps m n ∧ n.IsQuiet := by
  induction h with
  | intro m _ ih =>
    by_cases hquiet : m.IsQuiet
    · exact ⟨m, .refl, hquiet⟩
    · obtain ⟨next, hs⟩ := not_forall_not.mp hquiet
      obtain ⟨n, hn, hquiet⟩ := ih next hs
      exact ⟨n, .head hs hn, hquiet⟩

end Machine

end Future

end SassData
