import SassData.Proofs.Future.MachineStore
import SassData.Proofs.Future.MachineTermination

/-!
# Calls

A caller begins a job and is given its answer, while everything else goes on. Sources come and are
settled from outside before the call and after it. What the answer comes to is the result of the job
once nothing is left to be done, and before that it is nothing else.
-/

namespace SassData.Future

set_option autoImplicit false

open State (Settles)
open Relation (ReflTransGen)

variable {α : Type}

/-! ## Answers -/

section

variable {made : List (Origin α)} {restart : α → Plan α} {low : Nat} {plan : Plan α}

theorem Becomes.exists_future {answer : Answer α} (h : Becomes made restart low plan answer.plan)
    (hp : plan.prospect = .later) : ∃ target, answer = .future target := by
  rw [h.prospect_eq] at hp
  cases answer with
  | future target => exact ⟨target, rfl⟩
  | value | failure => cases hp

theorem Becomes.begins {later : Plan α} {p : Nat} {next : α → Plan α}
    (h : Becomes made restart low plan later) (hb : later.Begins restart p next) :
    plan.Begins restart p next := by
  revert hb
  refine h.induct (motive := fun plan later =>
    later.Begins restart p next → plan.Begins restart p next) (fun _ => id) (fun _ _ => nofun)
    (fun _ _ => nofun) ?items (fun _ _ _ => nofun) ?built (fun _ _ => nofun)
  case items =>
    intro plans nexts build ih hb
    cases hb with
    | item hmem hb =>
      obtain ⟨front, back, rfl⟩ := List.append_of_mem hmem
      obtain ⟨first, plan, others, rfl, -, hp, -⟩ := exists_of_forall₂_append_cons ih
      exact .item (List.mem_append_right _ List.mem_cons_self) (hp hb)
  case built =>
    intro plans values build _ hb
    exact absurd hb not_begins_answer

theorem Becomes.exists_origin {t : Nat} (h : Becomes made restart low plan (.existing t)) :
    plan = .existing t ∨ ∃ origin, made[t]? = some origin ∧ origin ≠ .source := by
  generalize hnext : Plan.existing t = next at h
  cases h with
  | kept => exact Or.inl rfl
  | awaited _ hmade | restarted _ hmade | gathered _ _ hmade =>
    cases hnext
    exact Or.inr ⟨_, hmade, nofun⟩
  | items | failing => cases hnext
  | @built _ values build _ =>
    cases hanswer : build values <;> rw [hanswer] at hnext <;> cases hnext

end

namespace Machine

/-! ## What may happen -/

def start (m : Machine α) (job : Job α) : Machine α :=
  { m with tasks := m.tasks ++ [⟨none, job⟩] }

def HasAnswered (m : Machine α) (answer : Answer α) : Prop :=
  ∃ restart, ⟨none, answer.plan, restart⟩ ∈ m.tasks

/-- A step, a new source, or a source that is settled from outside. -/
inductive Happens : Machine α → Machine α → Prop
  | step {m n : Machine α} (h : Steps m n) : Happens m n
  | source (m : Machine α) : Happens m (m.make .source)
  | settle {m : Machine α} {place : Nat} (h : m.made[place]? = some .source)
    (settlement : Settlement α) : Happens m (m.settle place settlement.state)

variable {m n : Machine α} {job : Job α} {answer : Answer α}

theorem Happens.settles (h : Happens m n) (q : Nat) : Settles (m.state q) (n.state q) := by
  cases h with
  | step hs => exact hs.settles q
  | source => exact Or.inr (state_make m .source q).symm
  | settle _ settlement => exact settles_settle m _ q settlement.state

theorem Happens.isSound (h : Happens m n) (hm : m.IsSound) : n.IsSound := by
  cases h with
  | step hs => exact hm.steps hs
  | source => exact hm.make nofun
  | settle hsource settlement => exact hm.settle hsource settlement.state

theorem Happens.made_prefix (h : Happens m n) : m.made <+: n.made := by
  cases h with
  | step hs => exact hs.made_prefix
  | source => exact List.prefix_append _ _
  | settle => exact List.prefix_refl _

theorem isSound_of_happens (h : ReflTransGen Happens m n) (hm : m.IsSound) : n.IsSound := by
  induction h with
  | refl => exact hm
  | tail _ hs ih => exact hs.isSound ih

theorem Happens.isGrounded (h : Happens m n) (hm : m.IsSound) (hg : m.IsGrounded) :
    n.IsGrounded := by
  cases h with
  | step hs => exact hg.steps hm hs
  | source => exact hg.make .source
  | settle hsource settlement => exact hg.settle hsource settlement.state

theorem isGrounded_of_happens (h : ReflTransGen Happens m n) (hm : m.IsSound)
    (hg : m.IsGrounded) : n.IsGrounded := by
  induction h with
  | refl => exact hg
  | tail hr hs ih => exact hs.isGrounded (isSound_of_happens hr hm) ih

theorem extends_of_happens (h : ReflTransGen Happens m n) : Extends m.known n.known := by
  refine extends_of_settles fun q => ?_
  induction h with
  | refl => exact Or.inr rfl
  | tail _ hs ih => exact ih.trans (hs.settles q)

theorem length_le_of_happens (h : ReflTransGen Happens m n) (hm : m.IsSound) :
    m.states.length ≤ n.states.length := by
  have hmade : m.made <+: n.made := by
    induction h with
    | refl => exact List.prefix_refl _
    | tail _ hs ih => exact ih.trans hs.made_prefix
  rw [hm.length, (isSound_of_happens h hm).length]
  exact hmade.length_le

theorem isSound_start (h : m.IsSound) (job : Job α) : (m.start job).IsSound := by
  refine h.assign (fun q => ?_) fun task ht => ?_
  · rw [work, List.filter_append, List.filter_cons_of_neg (by simp), List.filter_nil,
      List.append_nil]
    rfl
  · rcases List.mem_append.mp ht with ht | ht
    · exact Or.inl ht
    · rw [List.mem_singleton.mp ht]
      exact Or.inr rfl

/-! ## Before a call -/

/-- There are sources, and nothing is to be done. -/
structure IsIdle (m : Machine α) : Prop where
  sound : m.IsSound
  made : ∀ (place : Nat) (origin : Origin α), m.made[place]? = some origin → origin = .source
  waiting : m.waiting = []
  tasks : m.tasks = []

theorem IsIdle.isQuiet (h : m.IsIdle) : m.IsQuiet := by
  intro n hs
  cases hs with
  | call hw => exact List.append_ne_nil_of_right_ne_nil _ (List.cons_ne_nil _ _) (hw ▸ h.waiting)
  | advance ht | conclude ht =>
    exact List.append_ne_nil_of_right_ne_nil _ (List.cons_ne_nil _ _) (ht ▸ h.tasks)

theorem IsIdle.callers (h : m.IsIdle) : m.callers = [] := by
  rw [Machine.callers, h.tasks]
  rfl

theorem isIdle_of_happens (h : ReflTransGen Happens (empty : Machine α) m) : m.IsIdle := by
  induction h with
  | refl => exact ⟨isSound_empty, nofun, rfl, rfl⟩
  | @tail m n _ hs ih =>
    have hsound := hs.isSound ih.sound
    cases hs with
    | step hs => exact absurd hs (ih.isQuiet n)
    | settle => exact ⟨hsound, ih.made, ih.waiting, ih.tasks⟩
    | source =>
      refine ⟨hsound, fun place origin ho => ?_, ?_, ih.tasks⟩
      · rcases of_getElem?_concat ho with ho | ⟨-, ho⟩
        · exact ih.made place origin ho
        · exact ho
      · rw [Machine.make, ih.waiting]
        rfl

/-! ## The job of the caller -/

theorem exists_callers {before after : List (Task α)} {plan : Plan α} {restart : α → Plan α}
    (ht : m.tasks = before ++ ⟨none, plan, restart⟩ :: after) :
    ∃ front back, m.callers = front ++ ⟨none, plan, restart⟩ :: back ∧ ∀ next made,
      (makeAny { m with tasks := before ++ ⟨none, next, restart⟩ :: after } made).callers =
        front ++ ⟨none, next, restart⟩ :: back := by
  refine ⟨before.filter fun task => task.owner = none, after.filter fun task => task.owner = none,
    ?_, fun next made => ?_⟩
  · rw [callers, ht, List.filter_append, List.filter_cons_of_pos (by simp)]
  · rw [callers, tasks_makeAny, List.filter_append, List.filter_cons_of_pos (by simp)]

/-- The job of the one caller is under way. -/
def Serves (m : Machine α) (job : Job α) : Prop :=
  ∃ plan, m.callers = [⟨none, plan, job.restart⟩] ∧ Becomes m.made job.restart 0 job.plan plan

theorem serves_start (h : m.callers = []) (job : Job α) : (m.start job).Serves job := by
  refine ⟨job.plan, ?_, .kept job.plan⟩
  rw [callers, start, List.filter_append, List.filter_cons_of_pos (by simp)]
  exact congrArg (· ++ _) h

theorem Serves.steps (h : m.Serves job) (hm : m.IsSound) (hs : Steps m n) : n.Serves job := by
  obtain ⟨plan, hcallers, hb⟩ := h
  have hkept (hsame : n.callers = m.callers) : n.Serves job :=
    ⟨plan, hsame.trans hcallers, hb.mono hs.made_prefix⟩
  rcases hs.changes_or_advances with
    ⟨_, hc⟩ | ⟨before, after, owner, old, next, restart, made, ht, ha, rfl⟩
  · exact hkept hc.callers
  cases owner with
  | some target =>
    have hone : ∀ task ∈ [(⟨some target, next, restart⟩ : Task α)], task.owner = some target :=
      List.forall_mem_singleton.mpr rfl
    have hsame := (changes_replace ht hone).callers
    refine hkept ?_
    rw [callers, tasks_makeAny]
    exact hsame
  | none =>
    obtain ⟨front, back, hfront, hnext⟩ := exists_callers ht
    obtain ⟨rfl, rfl, heq⟩ := eq_of_singleton (hcallers.symm.trans hfront)
    cases heq
    refine ⟨next, hnext next made, ?_⟩
    rw [made_makeAny]
    exact hb.advance (hm.length ▸ ha) (Nat.zero_le _)

theorem Happens.serves (h : Happens m n) (hm : m.IsSound) (hserves : m.Serves job) :
    n.Serves job := by
  obtain ⟨plan, hcallers, hb⟩ := hserves
  cases h with
  | step hs => exact Serves.steps ⟨plan, hcallers, hb⟩ hm hs
  | source => exact ⟨plan, hcallers, hb.mono (List.prefix_append _ _)⟩
  | settle => exact ⟨plan, hcallers, hb⟩

theorem serves_of_happens (h : ReflTransGen Happens m n) (hm : m.IsSound)
    (hserves : m.Serves job) : n.Serves job := by
  induction h with
  | refl => exact hserves
  | tail hr hs ih => exact hs.serves (isSound_of_happens hr hm) ih

/-- Once nothing is left to be done after a call, the states are those that are read off the
store. -/
theorem state_eq_store_of_happens (hm : ReflTransGen Happens empty m)
    (hn : ReflTransGen Happens (m.start job) n) (hquiet : n.IsQuiet) : n.state = n.store.state := by
  have hsound := isSound_start (isSound_of_happens hm isSound_empty) job
  have hgrounded : m.IsGrounded := isGrounded_of_happens hm isSound_empty isGrounded_empty
  have hstart : (m.start job).IsGrounded := hgrounded
  exact (isSound_of_happens hn hsound).state_eq_store (isGrounded_of_happens hn hsound hstart)
    hquiet

/-! ## The answer to the caller -/

theorem Serves.becomes (h : m.Serves job) {plan : Plan α} {restart : α → Plan α}
    (ht : ⟨none, plan, restart⟩ ∈ m.tasks) :
    restart = job.restart ∧ Becomes m.made job.restart 0 job.plan plan := by
  obtain ⟨plan, hcallers, hb⟩ := h
  have hmem : (⟨none, _, restart⟩ : Task α) ∈ m.callers :=
    List.mem_filter.mpr ⟨ht, decide_eq_true rfl⟩
  rw [hcallers] at hmem
  cases List.mem_singleton.mp hmem
  exact ⟨rfl, hb⟩

theorem Serves.becomes_answer (h : m.Serves job) (ha : m.HasAnswered answer) :
    Becomes m.made job.restart 0 job.plan answer.plan := by
  obtain ⟨restart, ht⟩ := ha
  exact (h.becomes ht).2

theorem Serves.eq_answer (h : m.Serves job) {other : Answer α} (ha : m.HasAnswered answer)
    (ho : m.HasAnswered other) : other = answer := by
  obtain ⟨plan, hcallers, -⟩ := h
  have heq {answer : Answer α} (ha : m.HasAnswered answer) : answer.plan = plan := by
    obtain ⟨restart, ht⟩ := ha
    have hmem : (⟨none, answer.plan, restart⟩ : Task α) ∈ m.callers :=
      List.mem_filter.mpr ⟨ht, decide_eq_true rfl⟩
    rw [hcallers] at hmem
    cases List.mem_singleton.mp hmem
    rfl
  exact plan_injective ((heq ho).trans (heq ha).symm)

theorem mem_callers (h : n.callers = m.callers) {job : Job α} (ht : ⟨none, job⟩ ∈ m.tasks) :
    ⟨none, job⟩ ∈ n.tasks := by
  have hmem : (⟨none, job⟩ : Task α) ∈ n.callers :=
    h ▸ List.mem_filter.mpr ⟨ht, decide_eq_true rfl⟩
  exact (List.mem_filter.mp hmem).1

theorem HasAnswered.happens (ha : m.HasAnswered answer) (h : Happens m n) :
    n.HasAnswered answer := by
  obtain ⟨restart, ht⟩ := ha
  cases h with
  | source | settle => exact ⟨restart, ht⟩
  | step hs =>
    rcases hs.changes_or_advances with
      ⟨_, hc⟩ | ⟨before, after, owner, plan, next, restarted, made, hsplit, ha, rfl⟩
    · exact ⟨restart, mem_callers hc.callers ht⟩
    · refine ⟨restart, ?_⟩
      rw [hsplit] at ht
      rw [tasks_makeAny]
      rcases List.mem_append.mp ht with ht | ht
      · exact List.mem_append_left _ ht
      · rcases List.mem_cons.mp ht with heq | ht
        · cases heq
          exact absurd ha not_advances_answer
        · exact List.mem_append_right _ (List.mem_cons_of_mem _ ht)

theorem hasAnswered_of_happens (ha : m.HasAnswered answer) (h : ReflTransGen Happens m n) :
    n.HasAnswered answer := by
  induction h with
  | refl => exact ha
  | tail _ hs ih => exact ih.happens hs

theorem Serves.approaches (h : m.Serves job) (hm : m.IsSound) (ha : m.HasAnswered answer) :
    Approaches m (answer.result? m.known) (job.result? m.known m.states.length) := by
  have hread := hm.isRead job m.states.length job.plan 0 answer.plan (Nat.le_refl _)
    (h.becomes_answer ha)
  rwa [Answer.result?_plan] at hread

/-- The future that is the answer is in the state that tells the result of the job. -/
theorem Serves.state_eq (h : m.Serves job) (hm : m.IsSound) {target : Nat}
    (ha : m.HasAnswered (.future target)) (hne : job.plan ≠ .existing target)
    (hsettled : m.IsQuiet ∨ m.state target ≠ .pending) :
    m.state target = .ofResult (job.result? m.known m.states.length) := by
  have happroaches : Approaches m (m.known target) (job.result? m.known m.states.length) :=
    h.approaches hm ha
  have hresult : m.known target = job.result? m.known m.states.length := by
    rcases hsettled with hquiet | hpending
    · exact happroaches.eq hquiet
    · cases hk : m.known target with
      | none => exact absurd (state_eq_pending hk) hpending
      | some outcome => exact (happroaches.only outcome hk).symm
  obtain ⟨origin, hmade, hsource⟩ :=
    (h.becomes_answer ha).exists_origin.resolve_left hne
  rw [← hresult]
  exact hm.state_eq_ofResult hmade hsource

theorem Serves.exists_hasAnswered (h : m.Serves job) (hquiet : m.IsQuiet) :
    ∃ answer, m.HasAnswered answer := by
  obtain ⟨plan, hcallers, -⟩ := h
  have hmem : (⟨none, plan, job.restart⟩ : Task α) ∈ m.callers := by
    rw [hcallers]
    exact List.mem_singleton_self _
  have ht := (List.mem_filter.mp hmem).1
  obtain ⟨-, answer, hanswer⟩ := hquiet.exists_answer ht
  exact ⟨answer, job.restart, hanswer ▸ ht⟩

/-- The caller can be given an answer by steps of the job alone. -/
theorem Serves.exists_steps (h : m.Serves job) :
    ∃ n answer, ReflTransGen Steps m n ∧ n.HasAnswered answer := by
  obtain ⟨plan, hcallers, -⟩ := h
  induction hsize : plan.size using Nat.strongRecOn generalizing m plan with
  | ind size ih =>
    have hmem : (⟨none, plan, job.restart⟩ : Task α) ∈ m.callers := by
      rw [hcallers]
      exact List.mem_singleton_self _
    have ht := (List.mem_filter.mp hmem).1
    rcases exists_advances job.restart m.states.length plan with ⟨answer, rfl⟩ | ⟨made, next, ha⟩
    · exact ⟨m, answer, .refl, job.restart, ht⟩
    · obtain ⟨before, after, hsplit⟩ := List.append_of_mem ht
      obtain ⟨front, back, hfront, hnext⟩ := exists_callers hsplit
      obtain ⟨rfl, rfl, -⟩ := eq_of_singleton (hcallers.symm.trans hfront)
      obtain ⟨n, answer, hn, hanswer⟩ :=
        ih next.size (hsize ▸ ha.size_lt) next (hnext next made) rfl
      exact ⟨n, answer, .head (.advance hsplit ha) hn, hanswer⟩

end Machine

end SassData.Future
