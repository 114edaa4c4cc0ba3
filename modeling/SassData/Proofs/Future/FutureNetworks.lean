import Mathlib.Data.List.Nodup
import Mathlib.Data.List.Perm.Basic
import SassData.Proofs.Future.Combinations
import SassData.Proofs.Future.StoreStates

/-!
# Networks of futures

A network grows by sources, which are settled from outside, and by futures that are derived from
those before them, by conversion or by combination. What a future is follows from what those before
it are, so the states are the only ones that go together. Settling a source and deriving a future
can change places: what the network is in the end depends on the derived futures and their order and
on what each source was settled with, and on nothing else.
-/

namespace SassData.Future

set_option autoImplicit false

open State (Settles)

variable {α : Type}

/-! ## What networks are made of -/

/-- What a conversion gives: a value, a failure, or a future that is there. -/
inductive Answer (α : Type)
  | value (a : α)
  | failure (failure : Failure)
  | future (place : Nat)

namespace Answer

def plan : Answer α → Plan α
  | value a => .done a
  | failure f => .failed f
  | future place => .existing place

def result? (known : Nat → Option (Outcome α)) : Answer α → Option (Outcome α)
  | value a => some (.ok a)
  | failure f => some (.error f)
  | future place => known place

def ofOutcome : Outcome α → Answer α
  | .ok a => value a
  | .error f => failure f

end Answer

/-- What is combined: a value or a future. -/
inductive Item (α : Type)
  | value (a : α)
  | future (place : Nat)

namespace Item

def plan : Item α → Plan α
  | value a => .done a
  | future place => .existing place

def result? (known : Nat → Option (Outcome α)) : Item α → Option (Outcome α)
  | value a => some (.ok a)
  | future place => known place

def place? : Item α → Option Nat
  | value _ => none
  | future place => some place

/-- The futures among what is combined, each as often as it is there. -/
def places (items : List (Item α)) : List Nat := items.filterMap place?

end Item

inductive Settlement (α : Type)
  | complete (outcome : Outcome α)
  | cancel

def Settlement.state : Settlement α → State α
  | complete outcome => .ofOutcome outcome
  | cancel => .cancelled

/-- What is done to a network: a source, a conversion or a combination is added, or a source is
settled. -/
inductive Event (α : Type)
  | source
  | convert (source : Nat) (f : α → Answer α)
  | gather (items : List (Item α)) (build : List α → Outcome α)
  | settle (place : Nat) (settlement : Settlement α)

namespace Event

def settlement? : Event α → Option (Nat × Settlement α)
  | settle place settlement => some (place, settlement)
  | _ => none

def settlements (events : List (Event α)) : List (Nat × Settlement α) :=
  events.filterMap settlement?

def calls (events : List (Event α)) : List (Event α) :=
  events.filter fun event => event.settlement?.isNone

end Event

/-! ## Stores -/

namespace Store

def after (s : Store α) : Event α → Store α
  | .source => (s.allocate .pending).1
  | .convert source f => (s.launch (.ofPlan (.await source fun a => (f a).plan))).1
  | .gather items build => (s.launch (.ofPlan (.gather (items.map Item.plan) build))).1
  | .settle place (.complete outcome) =>
    match s.complete place outcome with
    | .ok t => t
    | .error _ => s
  | .settle place .cancel => (s.cancel place).1

def afterAll (s : Store α) (events : List (Event α)) : Store α := events.foldl after s

end Store

/-! ## Networks -/

/-- A future by the way it was made; a source with what it was settled with. -/
inductive Node (α : Type)
  | source (state : State α)
  | converted (source : Nat) (f : α → Answer α)
  | gathered (items : List (Item α)) (build : List α → Outcome α)

namespace Node

def Asks : Node α → Nat → Prop
  | source _, _ => False
  | converted p f, place => place = p ∨ ∃ a, f a = .future place
  | gathered items _, place => place ∈ Item.places items

/-- What a future is to whoever knows the others. -/
def state (known : Nat → Option (Outcome α)) : Node α → State α
  | source state => state
  | converted p f =>
    .ofResult (match known p with
      | none => none
      | some (.error failure) => some (.error failure)
      | some (.ok a) => (f a).result? known)
  | gathered items build => .ofResult (Plan.combine build (items.map (Item.result? known)))

def cell : Node α → Cell α
  | source state => ⟨state, none⟩
  | converted p f => ⟨.pending, some (.ofPlan (.await p fun a => (f a).plan))⟩
  | gathered items build => ⟨.pending, some (.ofPlan (.gather (items.map Item.plan) build))⟩

end Node

abbrev Network (α : Type) := List (Node α)

namespace Network

/-- A combination without futures adds none. -/
def after (net : Network α) : Event α → Network α
  | .source => net ++ [.source .pending]
  | .convert source f => net ++ [.converted source f]
  | .gather items build =>
    if Item.places items = [] then net else net ++ [.gathered items build]
  | .settle place settlement => net.set place (.source settlement.state)

def afterAll (net : Network α) (events : List (Event α)) : Network α := events.foldl after net

def store (net : Network α) : Store α := ⟨net.map Node.cell⟩

/-- Futures are derived from those that are there, and what is settled is a source that has not been
settled. -/
def Allows (net : Network α) : Event α → Prop
  | .source => True
  | .convert source f => ∀ place, (Node.converted source f).Asks place → place < net.length
  | .gather items build => ∀ place, (Node.gathered items build).Asks place → place < net.length
  | .settle place _ => net[place]? = some (.source .pending)

def AllowsAll (net : Network α) : List (Event α) → Prop
  | [] => True
  | event :: rest => net.Allows event ∧ (net.after event).AllowsAll rest

/-- Every future depends on those before it, and every combination on some. -/
structure IsOrdered (net : Network α) : Prop where
  asks : ∀ (place : Nat) (node : Node α), net[place]? = some node → ∀ q, node.Asks q → q < place
  gathers : ∀ (place : Nat) items (build : List α → Outcome α),
    net[place]? = some (.gathered items build) → Item.places items ≠ []

/-- Every future is what it is to whoever knows the states of the others. -/
def Solves (states : Nat → State α) (net : Network α) : Prop :=
  ∀ place node, net[place]? = some node →
    states place = node.state fun q => (states q).result?

end Network

/-! ## What a future is -/

section

variable {known more again : Nat → Option (Outcome α)}

theorem Answer.result?_plan (answer : Answer α) :
    answer.plan.result? known again = answer.result? known := by
  cases answer <;> rfl

theorem Answer.prospect_plan_ofOutcome (outcome : Outcome α) :
    (ofOutcome outcome).plan.prospect = .ofOutcome outcome := by
  cases outcome <;> rfl

theorem Answer.result?_ofOutcome (outcome : Outcome α) :
    (ofOutcome outcome).result? known = some outcome := by
  cases outcome <;> rfl

theorem Item.results_map_plan (items : List (Item α)) :
    Plan.results known again (items.map plan) = items.map (result? known) := by
  rw [Plan.results_eq_map, List.map_map]
  refine List.map_congr_left fun item _ => ?_
  cases item <;> rfl

theorem Item.prospects_map_plan (items : List (Item α)) :
    (places items = [] ∧ ∃ values, Plan.prospects (items.map plan) = .value values) ∨
      (places items ≠ [] ∧ Plan.prospects (items.map plan) = .later) := by
  induction items with
  | nil => exact Or.inl ⟨rfl, [], rfl⟩
  | cons item rest ih =>
    cases item with
    | value a =>
      rcases ih with ⟨hnone, values, hv⟩ | ⟨hsome, hlater⟩
      · refine Or.inl ⟨hnone, a :: values, ?_⟩
        rw [List.map_cons, Plan.prospects, hv]
        rfl
      · refine Or.inr ⟨hsome, ?_⟩
        rw [List.map_cons, Plan.prospects, hlater]
        rfl
    | future place =>
      refine Or.inr ⟨List.cons_ne_nil _ _, ?_⟩
      rw [List.map_cons, Plan.prospects]
      rcases ih with ⟨-, values, hv⟩ | ⟨-, hlater⟩
      · rw [hv]
        rfl
      · rw [hlater]
        rfl

theorem Item.prospects_of_places {items : List (Item α)} (h : places items ≠ []) :
    Plan.prospects (items.map plan) = .later := by
  rcases prospects_map_plan items with ⟨hnone, -⟩ | ⟨-, hlater⟩
  · exact absurd hnone h
  · exact hlater

theorem Item.prospects_ne_failure (items : List (Item α)) (failure : Failure) :
    Plan.prospects (items.map plan) ≠ .failure failure := by
  rcases prospects_map_plan items with ⟨-, values, hv⟩ | ⟨-, hlater⟩
  · rw [hv]
    exact nofun
  · rw [hlater]
    exact nofun

theorem Item.none_mem_map_result? {items : List (Item α)} {p : Nat} (hp : p ∈ places items)
    (h : known p = none) : none ∈ items.map (result? known) := by
  obtain ⟨item, hi, hplace⟩ := List.mem_filterMap.mp hp
  cases item with
  | value a => cases hplace
  | future q =>
    cases hplace
    exact List.mem_map.mpr ⟨.future p, hi, h⟩

theorem Node.state_cell {node : Node α}
    (h : ∀ items build, node = .gathered items build → Item.places items ≠ []) (size : Nat) :
    node.cell.state known size = node.state known := by
  have hjob (plan : Plan α) : Cell.state ⟨.pending, some (.ofPlan plan)⟩ known size =
      .ofResult (plan.result? known ((Job.ofPlan plan).again? known size)) := rfl
  cases node with
  | source state => cases state <;> rfl
  | converted p f =>
    rw [cell, hjob, Plan.result?, Node.state]
    cases known p with
    | none => rfl
    | some outcome =>
      cases outcome with
      | error failure => rfl
      | ok a => exact congrArg State.ofResult (Answer.result?_plan (f a))
  | gathered items build =>
    have hlater := Item.prospects_of_places (h items build rfl)
    rw [cell, hjob, Plan.result?, hlater, Item.results_map_plan]
    rfl

theorem Answer.result?_extends {answer : Answer α} {outcome : Outcome α}
    (h : ∀ q, answer = .future q → ∀ outcome, known q = some outcome → more q = some outcome)
    (ho : answer.result? known = some outcome) : answer.result? more = some outcome := by
  cases answer with
  | future q => exact h q rfl outcome ho
  | value _ | failure _ => exact ho

end

theorem of_getElem?_concat {β : Type} {xs : List β} {b c : β} {place : Nat}
    (h : (xs ++ [b])[place]? = some c) : xs[place]? = some c ∨ place = xs.length ∧ c = b := by
  rcases Nat.lt_trichotomy place xs.length with hlt | rfl | hgt
  · rw [List.getElem?_append_left hlt] at h
    exact Or.inl h
  · rw [List.getElem?_concat_length] at h
    exact Or.inr ⟨rfl, (Option.some.inj h).symm⟩
  · rw [List.getElem?_eq_none (by rw [List.length_append]; exact hgt)] at h
    cases h

namespace Network

variable {net : Network α}

/-! ## The states of a network -/

theorem solves_store (hnet : net.IsOrdered) : Solves net.store.state net := by
  intro place node hp
  have hcell : net.store.cells[place]? = some node.cell := by
    rw [store, List.getElem?_map, hp]
    rfl
  rw [Store.state_of_cell _ hcell, Node.state_cell]
  · rfl
  · rintro items build rfl
    exact hnet.gathers place items build hp

/-! ## Events -/

theorem length_le_after (net : Network α) (event : Event α) :
    net.length ≤ (net.after event).length := by
  cases event with
  | source | convert _ _ => simp [after]
  | settle place settlement => simp [after]
  | gather items build =>
    rw [after]
    split <;> simp

theorem getElem?_after {event : Event α} (hallows : net.Allows event) {place : Nat}
    (hp : place < net.length) (hne : ∀ settlement, event ≠ .settle place settlement) :
    (net.after event)[place]? = net[place]? := by
  cases event with
  | source | convert _ _ => exact List.getElem?_append_left hp
  | settle other settlement =>
    refine List.getElem?_set_ne ?_
    rintro rfl
    exact hne settlement rfl
  | gather items build =>
    rw [after]
    split
    · rfl
    · exact List.getElem?_append_left hp

theorem isOrdered_append {node : Node α} (hnet : net.IsOrdered)
    (hasks : ∀ q, node.Asks q → q < net.length)
    (hgathers : ∀ items build, node = .gathered items build → Item.places items ≠ []) :
    (net ++ [node]).IsOrdered where
  asks place other hp q hq := by
    rcases of_getElem?_concat hp with hp | ⟨rfl, rfl⟩
    · exact hnet.asks place other hp q hq
    · exact hasks q hq
  gathers place items build hp := by
    rcases of_getElem?_concat hp with hp | ⟨-, hnode⟩
    · exact hnet.gathers place items build hp
    · exact hgathers items build hnode.symm

theorem isOrdered_set {place : Nat} (hnet : net.IsOrdered) (state : State α) :
    IsOrdered (net.set place (.source state)) where
  asks other node hp q hq := by
    rw [List.getElem?_set] at hp
    split at hp
    · split at hp <;> cases hp
      cases hq
    · exact hnet.asks other node hp q hq
  gathers other items build hp := by
    rw [List.getElem?_set] at hp
    split at hp
    · split at hp <;> cases hp
    · exact hnet.gathers other items build hp

theorem isOrdered_after {event : Event α} (hnet : net.IsOrdered) (hallows : net.Allows event) :
    (net.after event).IsOrdered := by
  cases event with
  | source => exact isOrdered_append hnet nofun nofun
  | convert source f => exact isOrdered_append hnet hallows nofun
  | gather items build =>
    rw [after]
    split
    · exact hnet
    · next hsome =>
      refine isOrdered_append hnet hallows ?_
      rintro _ _ ⟨⟩
      exact hsome
  | settle place settlement => exact isOrdered_set hnet settlement.state

theorem store_settle {place : Nat} (hp : net[place]? = some (.source .pending))
    (state : State α) :
    net.store.settle place state = store (net.set place (.source state)) := by
  obtain ⟨hlt, -⟩ := List.getElem?_eq_some_iff.mp hp
  refine congrArg Store.mk (List.ext_getElem? fun q => ?_)
  rw [List.getElem?_modify, store, List.getElem?_map, List.getElem?_map, List.getElem?_set]
  split
  · next hq =>
    subst hq
    rw [hp]
    rfl
  · exact id_map _

/-- A new future has the place behind the others, and one that is settled is pending. -/
theorem store_after {event : Event α} (hnet : net.IsOrdered) (hallows : net.Allows event) :
    net.store.after event = (net.after event).store := by
  have happend (node : Node α) :
      (⟨net.store.cells ++ [node.cell]⟩ : Store α) = (net ++ [node] : Network α).store := by
    rw [store, store, List.map_append]
    rfl
  cases event with
  | source => exact happend (.source .pending)
  | convert source f => exact happend (.converted source f)
  | gather items build =>
    rw [after]
    rcases Item.prospects_map_plan items with ⟨hnone, values, hv⟩ | ⟨hsome, hlater⟩
    · rw [if_pos hnone, Store.after, Store.launch, Job.ofPlan, Plan.prospect, hv]
      cases hb : build values with
      | ok a => simp only [hb, Plan.Prospect.ofOutcome]
      | error failure => simp only [hb, Plan.Prospect.ofOutcome]
    · rw [if_neg hsome, Store.after, Store.launch, Job.ofPlan, Plan.prospect, hlater]
      exact happend (.gathered items build)
  | settle place settlement =>
    have hpending : net.store.state place = .pending := solves_store hnet place _ hallows
    have hset := store_settle hallows settlement.state
    cases settlement with
    | complete outcome =>
      have hcomplete : net.store.complete place outcome =
          .ok (net.store.settle place (.ofOutcome outcome)) := by
        rw [Store.complete, hpending]
        rfl
      rw [Store.after, hcomplete]
      exact hset
    | cancel =>
      rw [Store.after, Store.cancel, hpending]
      exact hset

/-! ## Whole runs -/

theorem isOrdered_afterAll {events : List (Event α)} (hnet : net.IsOrdered)
    (hallows : net.AllowsAll events) : IsOrdered (net.afterAll events) := by
  induction events generalizing net with
  | nil => exact hnet
  | cons event rest ih => exact ih (isOrdered_after hnet hallows.1) hallows.2

/-- A store is that of the network after the same events. -/
theorem store_afterAll {events : List (Event α)} (hnet : net.IsOrdered)
    (hallows : net.AllowsAll events) :
    net.store.afterAll events = store (net.afterAll events) := by
  induction events generalizing net with
  | nil => rfl
  | cons event rest ih =>
    have hrest := ih (isOrdered_after hnet hallows.1) hallows.2
    rw [← store_after hnet hallows.1] at hrest
    exact hrest

theorem allowsAll_of_append {before later : List (Event α)}
    (h : net.AllowsAll (before ++ later)) : net.AllowsAll before := by
  induction before generalizing net with
  | nil => trivial
  | cons event rest ih => exact ⟨h.1, ih h.2⟩

theorem isOrdered_nil : IsOrdered ([] : Network α) := ⟨nofun, nofun⟩

/-! ## The order of events -/

def settleAt (net : Network α) (entry : Nat × Settlement α) : Network α :=
  net.set entry.1 (.source entry.2.state)

theorem after_set {event : Event α} (hcall : event.settlement? = none) {place : Nat}
    (hp : place < net.length) (node : Node α) :
    Network.after (net.set place node) event = (net.after event).set place node := by
  cases event with
  | source | convert _ _ => exact (List.set_append_left place node hp).symm
  | gather items build =>
    rw [after, after]
    split
    · rfl
    · exact (List.set_append_left place node hp).symm
  | settle => cases hcall

theorem afterAll_set {events : List (Event α)} (hcalls : ∀ event ∈ events, event.settlement? = none)
    {place : Nat} (hp : place < net.length) (node : Node α) :
    afterAll (net.set place node) events = (net.afterAll events).set place node := by
  induction events generalizing net with
  | nil => rfl
  | cons event rest ih =>
    obtain ⟨hcall, hrest⟩ := List.forall_mem_cons.mp hcalls
    have hstep := ih hrest (hp.trans_le (net.length_le_after event))
    rw [← after_set hcall hp] at hstep
    exact hstep

/-- All futures may be added first and settled then. -/
theorem afterAll_eq_foldl {events : List (Event α)} (hallows : net.AllowsAll events) :
    net.afterAll events =
      (Event.settlements events).foldl settleAt (net.afterAll (Event.calls events)) := by
  induction events generalizing net with
  | nil => rfl
  | cons event rest ih =>
    have hrest := ih hallows.2
    cases event with
    | source | convert _ _ | gather _ _ => exact hrest
    | settle place settlement =>
      -- The source is there, so it may be settled behind all calls that follow.
      obtain ⟨hlt, -⟩ := List.getElem?_eq_some_iff.mp hallows.1
      have hcalls : ∀ event ∈ Event.calls rest, event.settlement? = none := by
        intro event he
        exact Option.isNone_iff_eq_none.mp (List.mem_filter.mp he).2
      rw [Network.after, afterAll_set hcalls hlt] at hrest
      exact hrest

theorem not_mem_settlements {events : List (Event α)} (hallows : net.AllowsAll events) {place : Nat}
    {state : State α} (hp : net[place]? = some (.source state)) (hs : state ≠ .pending) :
    place ∉ (Event.settlements events).map Prod.fst := by
  induction events generalizing net with
  | nil => exact nofun
  | cons event rest ih =>
    obtain ⟨hlt, -⟩ := List.getElem?_eq_some_iff.mp hp
    have hne : ∀ settlement, event ≠ .settle place settlement := by
      rintro settlement rfl
      have hpending : some (Node.source state) = some (.source .pending) := hp.symm.trans hallows.1
      cases hpending
      exact hs rfl
    have hrest := ih hallows.2 ((getElem?_after hallows.1 hlt hne).trans hp)
    cases event with
    | source | convert _ _ | gather _ _ => exact hrest
    | settle other settlement =>
      refine List.not_mem_cons_of_ne_of_not_mem ?_ hrest
      rintro rfl
      exact hne settlement rfl

theorem nodup_settlements {events : List (Event α)} (hallows : net.AllowsAll events) :
    ((Event.settlements events).map Prod.fst).Nodup := by
  induction events generalizing net with
  | nil => exact List.nodup_nil
  | cons event rest ih =>
    have hrest := ih hallows.2
    cases event with
    | source | convert _ _ | gather _ _ => exact hrest
    | settle place settlement =>
      obtain ⟨hlt, -⟩ := List.getElem?_eq_some_iff.mp hallows.1
      have hset : (net.after (.settle place settlement))[place]? =
          some (.source settlement.state) := List.getElem?_set_self hlt
      refine List.nodup_cons.mpr ⟨not_mem_settlements hallows.2 hset ?_, hrest⟩
      cases settlement with
      | cancel => exact nofun
      | complete outcome => cases outcome <;> exact nofun

theorem foldl_settleAt_perm {xs ys : List (Nat × Settlement α)} (h : xs.Perm ys)
    (hn : (xs.map Prod.fst).Nodup) : xs.foldl settleAt net = ys.foldl settleAt net := by
  refine h.foldl_eq' (fun x hx y hy net => ?_) net
  by_cases hp : x.1 = y.1
  · rw [List.inj_on_of_nodup_map hn hx hy hp]
  · exact List.set_comm _ _ hp

/-- Events that add the same futures in the same order and settle the same sources make the same
network. -/
theorem afterAll_congr {xs ys : List (Event α)} (hx : net.AllowsAll xs) (hy : net.AllowsAll ys)
    (hcalls : Event.calls xs = Event.calls ys)
    (hsettled : (Event.settlements xs).Perm (Event.settlements ys)) :
    net.afterAll xs = net.afterAll ys := by
  rw [afterAll_eq_foldl hx, afterAll_eq_foldl hy, hcalls]
  exact foldl_settleAt_perm hsettled (nodup_settlements hx)

end Network

end SassData.Future
