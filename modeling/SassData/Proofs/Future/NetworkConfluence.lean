import SassData.Proofs.Future.MachineStore
import SassData.Proofs.Future.MachineTermination

/-!
# Networks are confluent

The conversions of a network answer at once, so no futures are made but by the events, and the store
of the machine is the store of the network. Whatever callback is called when, the same events lead
to the same states.
-/

namespace SassData.Future

set_option autoImplicit false

open State (Settles)
open Relation (ReflTransGen)

variable {α : Type}

def Node.origin : Node α → Origin α
  | source _ => .source
  | converted p f => .converted p (fun a => (f a).plan) .done
  | gathered items build => .gathered items build

namespace Machine

variable {m n : Machine α} {net : Network α}

/-! ## Machines and networks -/

/-- The machine has the futures of the network, and only conversions are under way. -/
structure Reflects (m : Machine α) (net : Network α) : Prop where
  sound : m.IsSound
  grounded : m.IsGrounded
  made : m.made = net.map Node.origin
  sources : ∀ place state, net[place]? = some (.source state) → m.state place = state
  owners : ∀ task ∈ m.tasks, task.owner ≠ none

theorem reflects_empty : Reflects (empty : Machine α) [] :=
  ⟨isSound_empty, isGrounded_empty, rfl, nofun, nofun⟩

theorem Reflects.store_eq (h : m.Reflects net) : m.store = net.store := by
  refine congrArg Store.mk (List.ext_getElem? fun place => ?_)
  rw [List.getElem?_mapIdx, h.made, List.getElem?_map, List.getElem?_map]
  cases hnode : net[place]? with
  | none => rfl
  | some node =>
    cases node with
    | source state =>
      rw [h.sources place state hnode]
      rfl
    | converted | gathered => rfl

/-- A job of a conversion has its answer from the beginning. -/
theorem Reflects.not_advances (h : m.Reflects net) {task : Task α} (ht : task ∈ m.tasks)
    {place : Nat} {made : Option (Origin α)} {next : Plan α} :
    ¬ Advances task.job.restart place task.job.plan made next := by
  obtain ⟨owner, plan, restart⟩ := task
  cases owner with
  | none => exact absurd rfl (h.owners _ ht)
  | some target =>
    obtain ⟨p, f, a, hmade, -, hb⟩ := h.sound.works ht
    rw [h.made, List.getElem?_map, Option.map_eq_some_iff] at hmade
    obtain ⟨node, -, horigin⟩ := hmade
    cases node with
    | source | gathered => cases horigin
    | converted q g =>
      cases horigin
      rw [hb.eq_of_answer]
      exact not_advances_answer

theorem Reflects.exists_changes (h : m.Reflects net) (hs : Steps m n) :
    ∃ target, Changes target m n := by
  rcases hs.changes_or_advances with hc | ⟨_, _, owner, plan, _, restart, _, ht, ha, -⟩
  · exact hc
  · have hmem : (⟨owner, plan, restart⟩ : Task α) ∈ m.tasks := by rw [ht]; simp
    exact absurd ha (h.not_advances hmem)

theorem Reflects.steps (h : m.Reflects net) (hs : Steps m n) : n.Reflects net := by
  obtain ⟨target, hchanges⟩ := h.exists_changes hs
  refine ⟨h.sound.steps hs, h.grounded.steps h.sound hs, hchanges.made.trans h.made, ?_, ?_⟩
  · intro place state hnode
    have hsource : m.made[place]? = some .source := by
      rw [h.made, List.getElem?_map, hnode]
      rfl
    rw [h.sound.state_of_steps hs hsource]
    exact h.sources place state hnode
  · intro task ht
    rcases hchanges.owners task ht with hold | ho
    · exact h.owners task hold
    · rw [ho]
      exact Option.some_ne_none target

theorem Reflects.make (h : m.Reflects net) (node : Node α)
    (hne : ∀ items build, node = .gathered items build → Item.places items ≠ [])
    (hs : ∀ state, node = .source state → state = .pending) :
    (m.make node.origin).Reflects (net ++ [node]) := by
  refine ⟨h.sound.make ?_, h.grounded.make _, ?_, ?_, h.owners⟩
  · intro items build horigin
    cases node with
    | source | converted => cases horigin
    | gathered =>
      cases horigin
      exact hne items build rfl
  · rw [Machine.make, List.map_append, h.made]
    rfl
  · intro place state hnode
    rw [state_make]
    rcases of_getElem?_concat hnode with hnode | ⟨rfl, rfl⟩
    · exact h.sources place state hnode
    · have hlength : m.states.length = net.length := by
        rw [h.sound.length, h.made, List.length_map]
      rw [state_of_le (Nat.le_of_eq hlength), hs state rfl]

theorem Reflects.settle (h : m.Reflects net) {place : Nat}
    (hnode : net[place]? = some (.source .pending)) (state : State α) :
    (m.settle place state).Reflects (net.set place (.source state)) := by
  have hsource : m.made[place]? = some .source := by
    rw [h.made, List.getElem?_map, hnode]
    rfl
  obtain ⟨hlt, hget⟩ := List.getElem?_eq_some_iff.mp hsource
  refine ⟨h.sound.settle hsource state, h.grounded.settle hsource state, ?_, ?_, h.owners⟩
  · have hself := List.set_getElem_self hlt
    rw [hget] at hself
    rw [List.map_set, ← h.made]
    exact hself.symm
  · intro q other hq
    rw [List.getElem?_set] at hq
    split at hq
    · next heq =>
      subst heq
      split at hq <;> cases hq
      exact state_settle m (h.sound.length ▸ hlt) (h.sources place .pending hnode) state
    · next hne =>
      rw [state_settle_ne m (Ne.symm hne)]
      exact h.sources q other hq

theorem Reflects.after (h : m.Reflects net) {event : Event α} (hallows : net.Allows event) :
    (m.after event).Reflects (net.after event) := by
  cases event with
  | source =>
    refine h.make (.source .pending) ?_ fun state hs => (Node.source.inj hs).symm
    rintro _ _ ⟨⟩
  | convert source f =>
    refine h.make (.converted source f) ?_ ?_
    · rintro _ _ ⟨⟩
    · rintro _ ⟨⟩
  | gather items build =>
    rw [Machine.after, Network.after]
    split
    · exact h
    · next hne =>
      refine h.make (.gathered items build) ?_ ?_
      · rintro _ _ ⟨⟩
        exact hne
      · rintro _ ⟨⟩
  | settle place settlement => exact h.settle hallows settlement.state

theorem Runs.reflects {events : List (Event α)} (hr : Runs m events n) (h : m.Reflects net)
    (hallows : net.AllowsAll events) : n.Reflects (net.afterAll events) := by
  induction hr generalizing net with
  | nil => exact h
  | event _ ih => exact ih (h.after hallows.1) hallows.2
  | steps hs _ ih => exact ih (h.steps hs) hallows

/-! ## The end of a run -/

theorem extends_none (known : Nat → Option (Outcome α)) : Extends (fun _ => none) known := nofun

theorem isFinite_empty : IsFinite (fun _ => none) (empty : Machine α) := nofun

theorem IsFinite.after (h : m.IsFinite fun _ => none) (event : Event α) :
    (m.after event).IsFinite fun _ => none := by
  have hmake (origin : Origin α) (hnew : ∀ entry ∈ origin.callbacks m.states.length,
      Acc (Leaves fun _ => none) (.callback entry)) :
      (m.make origin).IsFinite fun _ => none := by
    intro work hw
    rw [works_make] at hw
    rcases Multiset.mem_add.mp hw with hw | hw
    · obtain ⟨entry, he, rfl⟩ := List.mem_map.mp (Multiset.mem_coe.mp hw)
      exact hnew entry he
    · exact h work hw
  cases event with
  | source => exact hmake .source nofun
  | convert source f =>
    refine hmake _ fun entry he => ?_
    rw [List.mem_singleton.mp he]
    refine ⟨_, fun work hleaves => ?_⟩
    cases hleaves with
    | @convert _ _ _ _ a => exact acc_answer (f a) _
  | gather items build =>
    rw [Machine.after]
    split
    · exact h
    · refine hmake _ fun entry he => ?_
      obtain ⟨p, -, rfl⟩ := List.mem_map.mp he
      exact acc_count
  | settle place settlement => exact h

theorem Runs.isFinite {events : List (Event α)} (hr : Runs m events n)
    (h : m.IsFinite fun _ => none) : n.IsFinite fun _ => none := by
  induction hr with
  | nil => exact h
  | event _ ih => exact ih (h.after _)
  | steps hs _ ih => exact ih (h.steps (extends_none _) hs)

theorem runs_of_steps (h : ReflTransGen Steps m n) : Runs m [] n := by
  induction h using ReflTransGen.head_induction_on with
  | refl => exact .nil n
  | head hs _ ih => exact .steps hs ih

theorem exists_runs (h : m.IsFinite fun _ => none) (events : List (Event α)) :
    ∃ n, Runs m events n ∧ n.IsQuiet := by
  induction events generalizing m with
  | nil =>
    obtain ⟨n, hn, hquiet⟩ := exists_quiet (h.acc (extends_none _))
    exact ⟨n, runs_of_steps hn, hquiet⟩
  | cons event rest ih =>
    obtain ⟨n, hn, hquiet⟩ := ih (h.after event)
    exact ⟨n, .event hn, hquiet⟩

/-- The events lead to the states, whatever callback is called when. -/
def EndsIn (events : List (Event α)) (states : Nat → State α) : Prop :=
  (∃ m, Runs empty events m ∧ m.IsQuiet) ∧
    ∀ m, Runs empty events m → m.IsQuiet → m.state = states

theorem endsIn_store {events : List (Event α)} (hallows : Network.AllowsAll [] events) :
    EndsIn events (Store.empty.afterAll events).state := by
  refine ⟨exists_runs isFinite_empty events, fun m hr hquiet => ?_⟩
  have hreflects := hr.reflects reflects_empty hallows
  have hstore : (Store.empty : Store α).afterAll events = _ :=
    Network.store_afterAll Network.isOrdered_nil hallows
  rw [hreflects.sound.state_eq_store hreflects.grounded hquiet, hreflects.store_eq, hstore]

/-- Two ways to add the same futures in the same order and to settle the same sources lead to the
same states, whatever callback is called when, and on the way no future that is settled changes. -/
theorem confluent {xs ys : List (Event α)} (hx : Network.AllowsAll [] xs)
    (hy : Network.AllowsAll [] ys) (hcalls : Event.calls xs = Event.calls ys)
    (hsettled : (Event.settlements xs).Perm (Event.settlements ys)) :
    ∃ states, EndsIn xs states ∧ EndsIn ys states ∧
      (Store.empty.afterAll xs).state = states ∧ (Store.empty.afterAll ys).state = states ∧
        ∀ before later, xs = before ++ later →
          (∀ place, Settles ((Store.empty.afterAll before).state place) (states place)) ∧
            ∀ m n, Runs empty before m → Runs m later n →
              ∀ place, Settles (m.state place) (n.state place) := by
  have hsame : (Store.empty : Store α).afterAll xs = Store.empty.afterAll ys := by
    have hstore {events : List (Event α)} (hallows : Network.AllowsAll [] events) :
        (Store.empty : Store α).afterAll events = _ :=
      Network.store_afterAll Network.isOrdered_nil hallows
    rw [hstore hx, hstore hy, Network.afterAll_congr hx hy hcalls hsettled]
  have hends := endsIn_store hx
  refine ⟨_, hends, ?_, rfl, congrArg Store.state hsame.symm, ?_⟩
  · rw [hsame]
    exact endsIn_store hy
  · rintro before later rfl
    refine ⟨fun place => ?_, fun m n _ hn => hn.settles⟩
    obtain ⟨⟨m, hm, hquiet⟩, hbefore⟩ := endsIn_store (Network.allowsAll_of_append hx)
    obtain ⟨n, hn, hquiet'⟩ := exists_runs (hm.isFinite isFinite_empty) later
    rw [← hbefore m hm hquiet, ← hends.2 n (hm.append hn) hquiet']
    exact hn.settles place

/-- Two sources, a conversion, a combination of it with the second source twice, and a conversion
that gives the combination. The sources are settled at the end. -/
def lateEvents : List (Event Nat) :=
  [.source, .convert 0 fun n => .value (2 * n), .source,
    .gather [.value 10, .future 2, .future 1, .future 2] fun ns => .ok ns.sum,
    .convert 0 fun _ => .future 3, .settle 2 .cancel, .settle 0 (.complete (.ok 21))]

def earlyEvents : List (Event Nat) :=
  [.source, .settle 0 (.complete (.ok 21)), .convert 0 fun n => .value (2 * n), .source,
    .settle 2 .cancel, .gather [.value 10, .future 2, .future 1, .future 2] fun ns => .ok ns.sum,
    .convert 0 fun _ => .future 3]

theorem endsIn_lateEvents : EndsIn lateEvents (Store.empty.afterAll earlyEvents).state := by
  have hplaces (place : Nat) : 2 = place ∨ 1 = place ∨ 2 = place → place < 3 := by omega
  have hlate : Network.AllowsAll [] lateEvents := by
    simpa [lateEvents, Network.AllowsAll, Network.Allows, Network.after, Node.Asks, Item.places,
      Item.place?] using hplaces
  have hearly : Network.AllowsAll [] earlyEvents := by
    simpa [earlyEvents, Network.AllowsAll, Network.Allows, Network.after, Node.Asks, Item.places,
      Item.place?] using hplaces
  obtain ⟨states, hends, -, -, hstates, -⟩ :=
    confluent hlate hearly rfl (List.Perm.swap _ _ _)
  rw [hstates]
  exact hends

example : (Store.empty.afterAll earlyEvents).state 4 = .failed .cancelled := rfl

end Machine

end SassData.Future
