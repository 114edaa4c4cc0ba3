import Mathlib.Logic.Function.Basic
import SassData.Proofs.Future.FutureNetworks

/-!
# Callbacks

How futures come to their states one callback after the other. A conversion waits for its source. It
is a job of its own then: its plan makes further futures, one at a time, until it has an answer, and
if that is a future, the conversion waits for that one. A combination counts down what it still
waits for, and the last one puts everything together. A callback whose future is settled may be
called at any time, also while other jobs are under way, and jobs go on in any order.
-/

namespace SassData.Future

set_option autoImplicit false

open State (Settles)

variable {α : Type}

inductive Origin (α : Type)
  | source
  | converted (source : Nat) (next restart : α → Plan α)
  | gathered (items : List (Item α)) (build : List α → Outcome α)

/-- What waits for a future, with the future that it settles in the end. -/
inductive Callback (α : Type)
  | convert (target : Nat) (next restart : α → Plan α)
  | forward (target : Nat)
  | count (target : Nat) (items : List (Item α)) (build : List α → Outcome α)

def Callback.target : Callback α → Nat
  | convert target _ _ | forward target | count target _ _ => target

/-- The callbacks of a future that is made at a place, each with the future that it waits for. -/
def Origin.callbacks (place : Nat) : Origin α → List (Nat × Callback α)
  | source => []
  | converted p next restart => [(p, .convert place next restart)]
  | gathered items build => (Item.places items).map fun p => (p, .count place items build)

/-- The next thing that is done about a plan when the next future is made at a place: the first item
that is not there yet goes on, and when all are there, they are combined. -/
inductive Advances (restart : α → Plan α) (place : Nat) :
    Plan α → Option (Origin α) → Plan α → Prop
  | await (source : Nat) (next : α → Plan α) :
    Advances restart place (.await source next)
      (some (.converted source next restart)) (.existing place)
  | again (source : Nat) :
    Advances restart place (.again source)
      (some (.converted source restart restart)) (.existing place)
  | gather (items : List (Item α)) (build : List α → Outcome α) (hne : Item.places items ≠ []) :
    Advances restart place (.gather (items.map Item.plan) build) (some (.gathered items build))
      (.existing place)
  | build (values : List α) (build : List α → Outcome α) :
    Advances restart place (.gather (values.map .done) build) none
      (Answer.ofOutcome (build values)).plan
  | fail (front : List (Item α)) (failure : Failure) (rest : List (Plan α))
    (build : List α → Outcome α) :
    Advances restart place (.gather (front.map Item.plan ++ .failed failure :: rest) build) none
      (.failed failure)
  | item (front : List (Item α)) {plan next : Plan α} {made : Option (Origin α)}
    (rest : List (Plan α)) (build : List α → Outcome α)
    (h : Advances restart place plan made next) :
    Advances restart place (.gather (front.map Item.plan ++ plan :: rest) build) made
      (.gather (front.map Item.plan ++ next :: rest) build)

/-- A job under way, with the future that its answer settles. Without one a caller waits. -/
structure Task (α : Type) where
  owner : Option Nat
  job : Job α

/-- The futures with the way each was made, how many callbacks of each have still to come, the
callbacks that have not been called, with the future that each one waits for, and the jobs that are
under way. -/
structure Machine (α : Type) where
  made : List (Origin α)
  states : List (State α)
  remaining : Nat → Nat
  waiting : List (Nat × Callback α)
  tasks : List (Task α)

namespace Machine

def empty : Machine α := ⟨[], [], fun _ => 0, [], []⟩

def state (m : Machine α) (place : Nat) : State α := m.states[place]?.getD .pending

def known (m : Machine α) (place : Nat) : Option (Outcome α) := (m.state place).result?

/-- A future that is settled stays as it is. -/
def settle (m : Machine α) (place : Nat) (state : State α) : Machine α :=
  { m with states := m.states.modify place fun old => if old.isPending then state else old }

def make (m : Machine α) (origin : Origin α) : Machine α :=
  let callbacks := origin.callbacks m.states.length
  { m with
    made := m.made ++ [origin]
    states := m.states ++ [.pending]
    remaining := Function.update m.remaining m.states.length callbacks.length
    waiting := m.waiting ++ callbacks }

def makeAny (m : Machine α) : Option (Origin α) → Machine α
  | none => m
  | some origin => m.make origin

/-- Calls a callback with the state of the future that it has waited for. -/
def call (m : Machine α) (state : State α) : Callback α → Machine α
  | .convert target next restart =>
    match state.result? with
    | none => m
    | some (.error failure) => m.settle target (.failed failure)
    | some (.ok a) => { m with tasks := ⟨some target, next a, restart⟩ :: m.tasks }
  | .forward target => m.settle target (.ofResult state.result?)
  | .count target items build =>
    let remaining := m.remaining target - 1
    let m := { m with remaining := Function.update m.remaining target remaining }
    if remaining = 0 then
      m.settle target (.ofResult (Plan.combine build (items.map (Item.result? m.known))))
    else m

/-- The future of a job has the answer of the job, or waits for it. -/
def conclude (m : Machine α) (target : Nat) : Answer α → Machine α
  | .value a => m.settle target (.done a)
  | .failure failure => m.settle target (.failed failure)
  | .future place => { m with waiting := (place, .forward target) :: m.waiting }

/-- A callback whose future is settled is called, or a job goes on or has its answer. -/
inductive Steps : Machine α → Machine α → Prop
  | call {m : Machine α} {before after : List (Nat × Callback α)} {place : Nat}
    {callback : Callback α} (hw : m.waiting = before ++ (place, callback) :: after)
    (hp : (m.state place).isPending = false) :
    Steps m (call { m with waiting := before ++ after } (m.state place) callback)
  | advance {m : Machine α} {before after : List (Task α)} {owner : Option Nat}
    {plan next : Plan α} {restart : α → Plan α} {made : Option (Origin α)}
    (ht : m.tasks = before ++ ⟨owner, plan, restart⟩ :: after)
    (h : Advances restart m.states.length plan made next) :
    Steps m (makeAny { m with tasks := before ++ ⟨owner, next, restart⟩ :: after } made)
  | conclude {m : Machine α} {before after : List (Task α)} {target : Nat} {answer : Answer α}
    {restart : α → Plan α} (ht : m.tasks = before ++ ⟨some target, answer.plan, restart⟩ :: after) :
    Steps m (conclude { m with tasks := before ++ after } target answer)

def after (m : Machine α) : Event α → Machine α
  | .source => m.make .source
  | .convert source f => m.make (.converted source (fun a => (f a).plan) .done)
  | .gather items build =>
    if Item.places items = [] then m else m.make (.gathered items build)
  | .settle place settlement => m.settle place settlement.state

/-- Events one after the other, and steps at any time between them. -/
inductive Runs : Machine α → List (Event α) → Machine α → Prop
  | nil (m : Machine α) : Runs m [] m
  | event {m n : Machine α} {event : Event α} {events : List (Event α)}
    (h : Runs (m.after event) events n) : Runs m (event :: events) n
  | steps {m n last : Machine α} {events : List (Event α)} (hs : Steps m n)
    (h : Runs n events last) : Runs m events last

/-- Nothing is left to be done. -/
def IsQuiet (m : Machine α) : Prop := ∀ n, ¬ Steps m n

/-! ## What is under way for a future -/

/-- The callbacks that settle a future, and the jobs for it. -/
def work (m : Machine α) (target : Nat) : List (Nat × Callback α) × List (Task α) :=
  (m.waiting.filter fun entry => entry.2.target = target,
    m.tasks.filter fun task => task.owner = some target)

def callers (m : Machine α) : List (Task α) := m.tasks.filter fun task => task.owner = none

theorem work_split {m : Machine α} {before after : List (Nat × Callback α)} {place : Nat}
    {callback : Callback α} (hw : m.waiting = before ++ (place, callback) :: after) :
    ∃ left right tasks, m.work callback.target = (left ++ (place, callback) :: right, tasks) ∧
      work { m with waiting := before ++ after } callback.target = (left ++ right, tasks) := by
  refine ⟨before.filter fun entry => entry.2.target = callback.target,
    after.filter fun entry => entry.2.target = callback.target,
    m.tasks.filter fun task => task.owner = some callback.target, ?_, ?_⟩
  · rw [work, hw, List.filter_append, List.filter_cons_of_pos (by simp)]
  · rw [work, List.filter_append]

theorem work_split_task {m : Machine α} {before after : List (Task α)} {target : Nat} {job : Job α}
    (ht : m.tasks = before ++ ⟨some target, job⟩ :: after) :
    ∃ callbacks left right, m.work target = (callbacks, left ++ ⟨some target, job⟩ :: right) ∧
      ∀ others : List (Task α), (∀ task ∈ others, task.owner = some target) →
        work { m with tasks := before ++ (others ++ after) } target =
          (callbacks, left ++ (others ++ right)) := by
  refine ⟨m.waiting.filter fun entry => entry.2.target = target,
    before.filter fun task => task.owner = some target,
    after.filter fun task => task.owner = some target, ?_, ?_⟩
  · rw [work, ht, List.filter_append, List.filter_cons_of_pos (by simp)]
  · intro others ho
    have hall : (others.filter fun task => task.owner = some target) = others :=
      List.filter_eq_self.mpr (by simpa using ho)
    rw [work, List.filter_append, List.filter_append, hall]

/-! ## What a step changes -/

theorem state_settle_ne (m : Machine α) {place q : Nat} (hq : q ≠ place) (state : State α) :
    (m.settle place state).state q = m.state q := by
  rw [settle, Machine.state, Machine.state, List.getElem?_modify_ne _ _ hq.symm]

theorem state_settle (m : Machine α) {place : Nat} (hp : place < m.states.length)
    (hpending : m.state place = .pending) (state : State α) :
    (m.settle place state).state place = state := by
  have hget := List.getElem?_eq_getElem hp
  rw [Machine.state, hget, Option.getD_some] at hpending
  rw [settle, Machine.state, List.getElem?_modify_eq, hget, hpending]
  rfl

theorem settles_settle (m : Machine α) (place q : Nat) (state : State α) :
    Settles (m.state q) ((m.settle place state).state q) := by
  by_cases hq : q = place
  · subst hq
    cases hget : m.states[q]? with
    | none =>
      left
      rw [Machine.state, hget]
      rfl
    | some old =>
      rw [settle, Machine.state, Machine.state, List.getElem?_modify_eq, hget]
      cases old with
      | pending => exact Or.inl rfl
      | cancelled | done | failed => exact Or.inr rfl
  · rw [state_settle_ne m hq]
    exact Or.inr rfl

/-- Only one future is settled, and only what is under way for it comes and goes. -/
structure Changes (target : Nat) (m n : Machine α) : Prop where
  made : n.made = m.made
  length : n.states.length = m.states.length
  settles : ∀ q, Settles (m.state q) (n.state q)
  state : ∀ q, q ≠ target → n.state q = m.state q
  work : ∀ q, q ≠ target → n.work q = m.work q
  remaining : ∀ q, q ≠ target → n.remaining q = m.remaining q
  targets : ∀ entry ∈ n.waiting, entry ∈ m.waiting ∨ entry.2.target = target
  owners : ∀ task ∈ n.tasks, task ∈ m.tasks ∨ task.owner = some target
  callers : n.callers = m.callers

theorem Changes.trans {target : Nat} {m n last : Machine α} (h : Changes target m n)
    (h' : Changes target n last) : Changes target m last where
  made := h'.made.trans h.made
  length := h'.length.trans h.length
  settles q := (h.settles q).trans (h'.settles q)
  state q hq := (h'.state q hq).trans (h.state q hq)
  work q hq := (h'.work q hq).trans (h.work q hq)
  remaining q hq := (h'.remaining q hq).trans (h.remaining q hq)
  targets entry he := by
    rcases h'.targets entry he with he | ht
    · exact h.targets entry he
    · exact Or.inr ht
  owners task ht := by
    rcases h'.owners task ht with ht | ho
    · exact h.owners task ht
    · exact Or.inr ho
  callers := h'.callers.trans h.callers

theorem Changes.made_prefix {target : Nat} {m n : Machine α} (h : Changes target m n) :
    m.made <+: n.made :=
  h.made ▸ List.prefix_refl _

theorem changes_refl (target : Nat) (m : Machine α) : Changes target m m :=
  ⟨rfl, rfl, fun _ => Or.inr rfl, fun _ _ => rfl, fun _ _ => rfl, fun _ _ => rfl, fun _ => Or.inl,
    fun _ => Or.inl, rfl⟩

theorem changes_settle (m : Machine α) (target : Nat) (state : State α) :
    Changes target m (m.settle target state) where
  made := rfl
  length := List.length_modify _ _ _
  settles q := settles_settle m target q state
  state _ hq := state_settle_ne m hq state
  work _ _ := rfl
  remaining _ _ := rfl
  targets _ := Or.inl
  owners _ := Or.inl
  callers := rfl

theorem changes_wait (m : Machine α) {callbacks : List (Nat × Callback α)} {target : Nat}
    (hwork : ∀ q, q ≠ target → work { m with waiting := callbacks } q = m.work q)
    (htargets : ∀ entry ∈ callbacks, entry ∈ m.waiting ∨ entry.2.target = target) :
    Changes target m { m with waiting := callbacks } :=
  ⟨rfl, rfl, fun _ => Or.inr rfl, fun _ _ => rfl, hwork, fun _ _ => rfl, htargets,
    fun _ => Or.inl, rfl⟩

theorem changes_assign (m : Machine α) {tasks : List (Task α)} {target : Nat}
    (hwork : ∀ q, q ≠ target → work { m with tasks := tasks } q = m.work q)
    (howners : ∀ task ∈ tasks, task ∈ m.tasks ∨ task.owner = some target)
    (hcallers : callers { m with tasks := tasks } = m.callers) :
    Changes target m { m with tasks := tasks } :=
  ⟨rfl, rfl, fun _ => Or.inr rfl, fun _ _ => rfl, hwork, fun _ _ => rfl, fun _ => Or.inl, howners,
    hcallers⟩

theorem changes_add (m : Machine α) (place : Nat) (callback : Callback α) :
    Changes callback.target m { m with waiting := (place, callback) :: m.waiting } := by
  refine m.changes_wait (fun q hq => ?_) fun entry he => ?_
  · rw [work, List.filter_cons_of_neg (by simpa using hq.symm)]
    rfl
  · rcases List.mem_cons.mp he with rfl | he
    · exact Or.inr rfl
    · exact Or.inl he

theorem changes_remove {m : Machine α} {before after : List (Nat × Callback α)} {place : Nat}
    {callback : Callback α} (hw : m.waiting = before ++ (place, callback) :: after) :
    Changes callback.target m { m with waiting := before ++ after } := by
  refine m.changes_wait (fun q hq => ?_) fun entry he => ?_
  · rw [work, work, hw, List.filter_append, List.filter_append,
      List.filter_cons_of_neg (by simpa using hq.symm)]
  · rw [hw]
    rcases List.mem_append.mp he with he | he
    · exact Or.inl (List.mem_append_left _ he)
    · exact Or.inl (List.mem_append_right _ (List.mem_cons_of_mem _ he))

theorem changes_begin (m : Machine α) (target : Nat) (job : Job α) :
    Changes target m { m with tasks := ⟨some target, job⟩ :: m.tasks } := by
  refine m.changes_assign (fun q hq => ?_) (fun task ht => ?_) ?_
  · rw [work, List.filter_cons_of_neg (by simpa using hq.symm)]
    rfl
  · rcases List.mem_cons.mp ht with rfl | ht
    · exact Or.inr rfl
    · exact Or.inl ht
  · exact List.filter_cons_of_neg (by simp)

theorem changes_replace {m : Machine α} {before after others : List (Task α)} {target : Nat}
    {job : Job α} (ht : m.tasks = before ++ ⟨some target, job⟩ :: after)
    (ho : ∀ task ∈ others, task.owner = some target) :
    Changes target m { m with tasks := before ++ (others ++ after) } := by
  refine m.changes_assign (fun q hq => ?_) (fun task hmem => ?_) ?_
  · have hnone : (others.filter fun task => task.owner = some q) = [] := by
      rw [List.filter_eq_nil_iff]
      intro task hm
      rw [ho task hm]
      simpa using hq.symm
    rw [work, work, ht, List.filter_append, List.filter_append, List.filter_append, hnone,
      List.filter_cons_of_neg (by simpa using hq.symm)]
    rfl
  · rw [ht]
    rcases List.mem_append.mp hmem with hm | hm
    · exact Or.inl (List.mem_append_left _ hm)
    · rcases List.mem_append.mp hm with hm | hm
      · exact Or.inr (ho task hm)
      · exact Or.inl (List.mem_append_right _ (List.mem_cons_of_mem _ hm))
  · have hnone : (others.filter fun task => task.owner = none) = [] := by
      rw [List.filter_eq_nil_iff]
      intro task hm
      rw [ho task hm]
      simp
    rw [callers, callers, ht, List.filter_append, List.filter_append, List.filter_append, hnone,
      List.filter_cons_of_neg (by simp)]
    rfl

theorem changes_countDown (m : Machine α) (target count : Nat) :
    Changes target m { m with remaining := Function.update m.remaining target count } :=
  ⟨rfl, rfl, fun _ => Or.inr rfl, fun _ _ => rfl, fun _ _ => rfl,
    fun _ hq => Function.update_of_ne hq _ _, fun _ => Or.inl, fun _ => Or.inl, rfl⟩

theorem changes_call (m : Machine α) (state : State α) (callback : Callback α) :
    Changes callback.target m (m.call state callback) := by
  cases callback with
  | convert target next restart =>
    rw [call]
    split
    · exact changes_refl target m
    · exact changes_settle m target _
    · exact changes_begin m target _
  | forward target => exact changes_settle m target _
  | count target items build =>
    rw [call]
    have hcount := changes_countDown m target (m.remaining target - 1)
    split
    · exact hcount.trans (changes_settle _ target _)
    · exact hcount

theorem changes_conclude (m : Machine α) (target : Nat) (answer : Answer α) :
    Changes target m (m.conclude target answer) := by
  cases answer with
  | value a => exact changes_settle m target _
  | failure failure => exact changes_settle m target _
  | future place => exact changes_add m place (.forward target)

theorem changes_called {m : Machine α} {before after : List (Nat × Callback α)} {place : Nat}
    {callback : Callback α} (hw : m.waiting = before ++ (place, callback) :: after)
    (state : State α) :
    Changes callback.target m (call { m with waiting := before ++ after } state callback) :=
  (changes_remove hw).trans (changes_call _ state callback)

theorem changes_concluded {m : Machine α} {before after : List (Task α)} {target : Nat}
    {job : Job α} (ht : m.tasks = before ++ ⟨some target, job⟩ :: after) (answer : Answer α) :
    Changes target m (conclude { m with tasks := before ++ after } target answer) :=
  (changes_replace ht (List.forall_mem_nil _)).trans (changes_conclude _ target answer)

/-- A step settles one future at most, or a job goes on. -/
theorem Steps.changes_or_advances {m n : Machine α} (h : Steps m n) :
    (∃ target, Changes target m n) ∨
      ∃ before after owner plan next restart made,
        m.tasks = before ++ ⟨owner, plan, restart⟩ :: after ∧
          Advances restart m.states.length plan made next ∧
            n = makeAny { m with tasks := before ++ ⟨owner, next, restart⟩ :: after } made := by
  cases h with
  | call hw _ => exact Or.inl ⟨_, changes_called hw _⟩
  | conclude ht => exact Or.inl ⟨_, changes_concluded ht _⟩
  | advance ht ha => exact Or.inr ⟨_, _, _, _, _, _, _, ht, ha, rfl⟩

/-! ## What is new -/

theorem state_of_le {m : Machine α} {q : Nat} (hq : m.states.length ≤ q) :
    m.state q = .pending := by
  rw [state, List.getElem?_eq_none hq]
  rfl

theorem lt_of_known {m : Machine α} {q : Nat} (h : m.known q ≠ none) : q < m.states.length := by
  by_contra hle
  rw [known, state_of_le (Nat.le_of_not_lt hle)] at h
  exact h rfl

theorem state_make (m : Machine α) (origin : Origin α) (q : Nat) :
    (m.make origin).state q = m.state q := by
  rw [make, state, state]
  rcases Nat.lt_trichotomy q m.states.length with hlt | rfl | hgt
  · rw [List.getElem?_append_left hlt]
  · rw [List.getElem?_concat_length, List.getElem?_eq_none (Nat.le_refl _)]
    rfl
  · rw [List.getElem?_eq_none (by rw [List.length_append]; exact hgt),
      List.getElem?_eq_none (Nat.le_of_lt hgt)]

theorem known_make (m : Machine α) (origin : Origin α) : (m.make origin).known = m.known :=
  funext fun q => congrArg State.result? (state_make m origin q)

theorem Origin.target_of_mem {origin : Origin α} {place : Nat} {entry : Nat × Callback α}
    (he : entry ∈ origin.callbacks place) : entry.2.target = place := by
  cases origin with
  | source => cases he
  | converted p next restart =>
    rw [List.mem_singleton.mp he]
    rfl
  | gathered items build =>
    obtain ⟨p, -, rfl⟩ := List.mem_map.mp he
    rfl

theorem work_make (m : Machine α) (origin : Origin α) (q : Nat) :
    (m.make origin).work q = ((m.work q).1 ++
      (if q = m.states.length then origin.callbacks q else []), (m.work q).2) := by
  have hnew : ((origin.callbacks m.states.length).filter fun entry => entry.2.target = q) =
      if q = m.states.length then origin.callbacks q else [] := by
    split
    · next hq =>
      rw [hq, List.filter_eq_self]
      intro entry he
      simpa using Origin.target_of_mem he
    · next hq =>
      rw [List.filter_eq_nil_iff]
      intro entry he
      rw [Origin.target_of_mem he]
      simpa using Ne.symm hq
  rw [work, make, List.filter_append, hnew]
  rfl

/-! ## States along a run -/

theorem Steps.made_prefix {m n : Machine α} (h : Steps m n) : m.made <+: n.made := by
  rcases h.changes_or_advances with ⟨_, hc⟩ | ⟨_, _, _, _, _, _, made, -, -, rfl⟩
  · exact hc.made_prefix
  · cases made with
    | none => exact List.prefix_refl _
    | some origin => exact List.prefix_append _ _

theorem Steps.settles {m n : Machine α} (h : Steps m n) (q : Nat) :
    Settles (m.state q) (n.state q) := by
  rcases h.changes_or_advances with ⟨_, hc⟩ | ⟨_, _, _, _, _, _, made, -, -, rfl⟩
  · exact hc.settles q
  · cases made with
    | none => exact Or.inr rfl
    | some origin => exact Or.inr (state_make _ origin q).symm

theorem settles_after (m : Machine α) (event : Event α) (q : Nat) :
    Settles (m.state q) ((m.after event).state q) := by
  cases event with
  | source | convert _ _ => exact Or.inr (state_make m _ q).symm
  | gather items build =>
    rw [after]
    split
    · exact Or.inr rfl
    · exact Or.inr (state_make m _ q).symm
  | settle place settlement => exact settles_settle m place q _

theorem Runs.settles {m n : Machine α} {events : List (Event α)} (hr : Runs m events n) (q : Nat) :
    Settles (m.state q) (n.state q) := by
  induction hr with
  | nil => exact Or.inr rfl
  | event _ ih => exact (settles_after _ _ q).trans ih
  | steps hs _ ih => exact (hs.settles q).trans ih

theorem Runs.append {m n last : Machine α} {xs ys : List (Event α)} (h : Runs m xs n)
    (h' : Runs n ys last) : Runs m (xs ++ ys) last := by
  induction h with
  | nil => exact h'
  | event _ ih => exact .event (ih h')
  | steps hs _ ih => exact .steps hs (ih h')

theorem extends_of_settles {m n : Machine α} (h : ∀ q, Settles (m.state q) (n.state q)) :
    Extends m.known n.known := by
  intro q outcome ho
  rcases h q with hpending | heq
  · rw [known, hpending] at ho
    cases ho
  · rw [known, ← heq]
    exact ho

theorem extends_settle (m : Machine α) (target : Nat) (state : State α) :
    Extends m.known (m.settle target state).known :=
  extends_of_settles (changes_settle m target state).settles

theorem known_ne_none {m n : Machine α} (h : Extends m.known n.known) {p : Nat}
    (hp : m.known p ≠ none) : n.known p ≠ none := by
  obtain ⟨outcome, ho⟩ := Option.ne_none_iff_exists'.mp hp
  rw [h p outcome ho]
  exact Option.some_ne_none outcome

theorem state_eq_pending {m : Machine α} {place : Nat} (h : m.known place = none) :
    m.state place = .pending := by
  rw [known] at h
  cases hs : m.state place with
  | pending => rfl
  | cancelled | done | failed =>
    rw [hs] at h
    cases h

theorem exists_result? {state : State α} (h : state.isPending = false) :
    ∃ outcome, state.result? = some outcome := by
  cases state with
  | pending => cases h
  | cancelled => exact ⟨_, rfl⟩
  | done a => exact ⟨_, rfl⟩
  | failed failure => exact ⟨_, rfl⟩

theorem ofOutcome_ne_pending (outcome : Outcome α) : State.ofOutcome outcome ≠ .pending := by
  cases outcome <;> exact nofun

end Machine

/-! ## What is left to be done -/

theorem Item.exists_values {items : List (Item α)} (h : places items = []) :
    ∃ values : List α, items.map plan = values.map .done := by
  induction items with
  | nil => exact ⟨[], rfl⟩
  | cons item rest ih =>
    cases item with
    | value a =>
      obtain ⟨values, hrest⟩ := ih h
      exact ⟨a :: values, congrArg (_ :: ·) hrest⟩
    | future place => cases h

mutual

/-- Something can be done about a plan as long as it is no answer. -/
theorem exists_advances (restart : α → Plan α) (place : Nat) (plan : Plan α) :
    (∃ answer : Answer α, plan = answer.plan) ∨
      ∃ made next, Advances restart place plan made next := by
  match plan with
  | .done a => exact Or.inl ⟨.value a, rfl⟩
  | .failed failure => exact Or.inl ⟨.failure failure, rfl⟩
  | .existing p => exact Or.inl ⟨.future p, rfl⟩
  | .await p next => exact Or.inr ⟨_, _, .await p next⟩
  | .again p => exact Or.inr ⟨_, _, .again p⟩
  | .gather plans build =>
    right
    rcases exists_items_or_advances restart place plans with ⟨items, rfl⟩ |
      ⟨front, plan, back, rfl, ⟨failure, rfl⟩ | ⟨made, next, h⟩⟩
    · by_cases hplaces : Item.places items = []
      · obtain ⟨values, hvalues⟩ := Item.exists_values hplaces
        rw [hvalues]
        exact ⟨_, _, .build values build⟩
      · exact ⟨_, _, .gather items build hplaces⟩
    · exact ⟨_, _, .fail front failure back build⟩
    · exact ⟨_, _, .item front back build h⟩

theorem exists_items_or_advances (restart : α → Plan α) (place : Nat) (plans : List (Plan α)) :
    (∃ items : List (Item α), plans = items.map Item.plan) ∨
      ∃ (front : List (Item α)) (plan : Plan α) (back : List (Plan α)),
        plans = front.map Item.plan ++ plan :: back ∧
          ((∃ failure, plan = .failed failure) ∨
            ∃ made next, Advances restart place plan made next) := by
  match plans with
  | [] => exact Or.inl ⟨[], rfl⟩
  | plan :: rest =>
    have hitem (item : Item α) (hplan : plan = item.plan) :
        (∃ items : List (Item α), plan :: rest = items.map Item.plan) ∨
          ∃ (front : List (Item α)) (other : Plan α) (back : List (Plan α)),
            plan :: rest = front.map Item.plan ++ other :: back ∧
              ((∃ failure, other = .failed failure) ∨
                ∃ made next, Advances restart place other made next) := by
      rcases exists_items_or_advances restart place rest with ⟨items, hrest⟩ |
        ⟨front, other, back, hrest, ho⟩
      · exact Or.inl ⟨item :: items, by rw [hplan, hrest, List.map_cons]⟩
      · refine Or.inr ⟨item :: front, other, back, ?_, ho⟩
        rw [hplan, hrest, List.map_cons, List.cons_append]
    rcases exists_advances restart place plan with ⟨answer, hanswer⟩ | hadvances
    · cases answer with
      | value a => exact hitem (.value a) hanswer
      | future p => exact hitem (.future p) hanswer
      | failure failure => exact Or.inr ⟨[], plan, rest, rfl, Or.inl ⟨failure, hanswer⟩⟩
    · exact Or.inr ⟨[], plan, rest, rfl, Or.inr hadvances⟩

end

namespace Machine

variable {m : Machine α}

theorem IsQuiet.known_eq_none (h : m.IsQuiet) {p : Nat} {callback : Callback α}
    (hw : (p, callback) ∈ m.waiting) : m.known p = none := by
  obtain ⟨before, after, hsplit⟩ := List.append_of_mem hw
  cases hp : m.state p with
  | pending => rw [known, hp]; rfl
  | cancelled | done | failed =>
    exact absurd (Steps.call hsplit (by rw [hp]; rfl)) (h _)

theorem IsQuiet.exists_answer (h : m.IsQuiet) {task : Task α} (ht : task ∈ m.tasks) :
    task.owner = none ∧ ∃ answer : Answer α, task.job.plan = answer.plan := by
  obtain ⟨owner, plan, restart⟩ := task
  obtain ⟨before, after, hsplit⟩ := List.append_of_mem ht
  rcases exists_advances restart m.states.length plan with ⟨answer, rfl⟩ | ⟨made, next, ha⟩
  · cases owner with
    | none => exact ⟨rfl, answer, rfl⟩
    | some target => exact absurd (Steps.conclude hsplit) (h _)
  · exact absurd (Steps.advance hsplit ha) (h _)

section

variable {target : Nat} {callbacks : List (Nat × Callback α)} {tasks : List (Task α)}

theorem IsQuiet.known_eq_none_of_work (h : m.IsQuiet) (hw : m.work target = (callbacks, tasks))
    {p : Nat} {callback : Callback α} (hc : (p, callback) ∈ callbacks) : m.known p = none := by
  obtain ⟨rfl, rfl⟩ := Prod.mk.inj hw
  exact h.known_eq_none (List.mem_of_mem_filter hc)

theorem IsQuiet.tasks_eq_nil (h : m.IsQuiet) (hw : m.work target = (callbacks, tasks)) :
    tasks = [] := by
  obtain ⟨rfl, rfl⟩ := Prod.mk.inj hw
  rw [List.eq_nil_iff_forall_not_mem]
  intro task ht
  obtain ⟨ht, ho⟩ := List.mem_filter.mp ht
  obtain ⟨hnone, -⟩ := h.exists_answer ht
  rw [hnone] at ho
  cases ho

end

end Machine

end SassData.Future
