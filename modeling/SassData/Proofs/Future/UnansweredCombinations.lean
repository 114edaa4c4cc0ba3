import SassData.Proofs.Future.NetworkConfluence

/-!
# Combinations that never end

A combination owes its futures an answer once all of them are settled: the first failure among them
in the order of the items, or else what is built from their values. It gives the answer whatever
callback is called when, unless it has values only and nothing can be built from them. Then the
failure is lost in the last callback, and the combination is pending for ever.
-/

namespace SassData.Future

set_option autoImplicit false

variable {α : Type}

/-! ## What is owed -/

/-- What a combination is to come to when its items have come to the outcomes. -/
inductive Owes (build : List α → Outcome α) : List (Outcome α) → Outcome α → Prop
  | built (values : List α) : Owes build (values.map .ok) (build values)
  | failed (values : List α) (failure : Failure) (rest : List (Outcome α)) :
    Owes build (values.map .ok ++ .error failure :: rest) (.error failure)

/-- There are values only, and what is to be built from them fails. -/
def Spoils (build : List α → Outcome α) (outcomes : List (Outcome α)) : Prop :=
  ∃ values failure, outcomes = values.map .ok ∧ build values = .error failure

namespace Item

def ComeTo (states : Nat → State α) (items : List (Item α)) (outcomes : List (Outcome α)) : Prop :=
  items.map (result? fun place => (states place).result?) = outcomes.map some

/-- The future at the place has come to what it owes the items. -/
def AreAnswered (states : Nat → State α) (items : List (Item α))
    (build : List α → Outcome α) (target : Nat) : Prop :=
  ∃ outcomes result, ComeTo states items outcomes ∧ Owes build outcomes result ∧
    states target = .ofOutcome result

/-- The items have come to values from which nothing can be built. -/
def AreSpoiled (states : Nat → State α) (items : List (Item α))
    (build : List α → Outcome α) : Prop :=
  ∃ outcomes, ComeTo states items outcomes ∧ Spoils build outcomes

end Item

section

variable {build : List α → Outcome α} {outcomes : List (Outcome α)} {result : Outcome α}

theorem exists_owes (build : List α → Outcome α) (outcomes : List (Outcome α)) :
    ∃ result, Owes build outcomes result := by
  have hsplit : (∃ values : List α, outcomes = values.map .ok) ∨
      ∃ (values : List α) (failure : Failure) (rest : List (Outcome α)),
        outcomes = values.map .ok ++ .error failure :: rest := by
    induction outcomes with
    | nil => exact Or.inl ⟨[], rfl⟩
    | cons outcome rest ih =>
      cases outcome with
      | error failure => exact Or.inr ⟨[], failure, rest, rfl⟩
      | ok a =>
        rcases ih with ⟨values, rfl⟩ | ⟨values, failure, others, rfl⟩
        · exact Or.inl ⟨a :: values, rfl⟩
        · exact Or.inr ⟨a :: values, failure, others, rfl⟩
  rcases hsplit with ⟨values, rfl⟩ | ⟨values, failure, rest, rfl⟩
  · exact ⟨_, .built values⟩
  · exact ⟨_, .failed values failure rest⟩

theorem map_ok_injective : Function.Injective (List.map (Except.ok : α → Outcome α)) :=
  List.map_injective_iff.mpr fun _ _ => Except.ok.inj

theorem not_spoils_failed {values : List α} {failure : Failure} {rest : List (Outcome α)} :
    ¬ Spoils build (values.map .ok ++ .error failure :: rest) := by
  rintro ⟨others, other, h, -⟩
  have hmem : (.error failure : Outcome α) ∈ others.map .ok := by
    rw [← h]
    exact List.mem_append_right _ List.mem_cons_self
  obtain ⟨a, -, ha⟩ := List.mem_map.mp hmem
  cases ha

theorem mapM_failed (values : List α) (failure : Failure) (rest : List (Outcome α)) :
    (values.map .ok ++ .error failure :: rest : List (Outcome α)).mapM id = .error failure := by
  induction values with
  | nil => rfl
  | cons a values ih =>
    rw [List.map_cons, List.cons_append, List.mapM_cons, ih]
    rfl

theorem combine_of_owes (h : Owes build outcomes result) :
    Spoils build outcomes ∧ Plan.combine build (outcomes.map some) = none ∨
      ¬ Spoils build outcomes ∧ Plan.combine build (outcomes.map some) = some result := by
  cases h with
  | built values =>
    have hcollect : Plan.collect ((values.map .ok).map some) = some (.ok values) := by
      rw [Plan.collect_map_some, Plan.mapM_map_ok]
    cases hbuild : build values with
    | ok a =>
      refine Or.inr ⟨?_, by simp only [Plan.combine, hcollect, hbuild]⟩
      rintro ⟨others, failure, h, hfails⟩
      rw [← map_ok_injective h, hbuild] at hfails
      cases hfails
    | error failure =>
      exact Or.inl ⟨⟨values, failure, rfl, hbuild⟩, by simp only [Plan.combine, hcollect, hbuild]⟩
  | failed values failure rest =>
    refine Or.inr ⟨not_spoils_failed, ?_⟩
    rw [Plan.combine, Plan.collect_map_some, mapM_failed]

end

/-! ## Where a combination stands -/

namespace Item

variable {states : Nat → State α} {items : List (Item α)} {outcomes others : List (Outcome α)}

theorem exists_comeTo (h : ∀ p ∈ places items, (states p).isPending = false) :
    ∃ outcomes, ComeTo states items outcomes := by
  induction items with
  | nil => exact ⟨[], rfl⟩
  | cons item rest ih =>
    cases item with
    | value a =>
      obtain ⟨outcomes, hrest⟩ := ih h
      refine ⟨.ok a :: outcomes, ?_⟩
      rw [ComeTo, List.map_cons, hrest]
      rfl
    | future p =>
      obtain ⟨hp, hplaces⟩ := List.forall_mem_cons.mp h
      obtain ⟨outcome, ho⟩ := Machine.exists_result? hp
      obtain ⟨outcomes, hrest⟩ := ih hplaces
      refine ⟨outcome :: outcomes, ?_⟩
      rw [ComeTo, List.map_cons, hrest, result?, ho]
      rfl

theorem ComeTo.unique (h : ComeTo states items outcomes) (h' : ComeTo states items others) :
    outcomes = others :=
  List.map_injective_iff.mpr (fun _ _ => Option.some.inj) (h.symm.trans h')

end Item

namespace Network

variable {net : Network α}

theorem AllowsAll.later {before later : List (Event α)} (h : net.AllowsAll (before ++ later)) :
    (net.afterAll before).AllowsAll later := by
  induction before generalizing net with
  | nil => exact h
  | cons event rest ih => exact ih h.2

/-- A combination stays where it is, for only sources are settled from outside. -/
theorem getElem?_afterAll_gathered {events : List (Event α)} (hallows : net.AllowsAll events)
    {place : Nat} {items : List (Item α)} {build : List α → Outcome α}
    (h : net[place]? = some (.gathered items build)) :
    (net.afterAll events)[place]? = some (.gathered items build) := by
  induction events generalizing net with
  | nil => exact h
  | cons event rest ih =>
    apply ih hallows.2
    obtain ⟨hlt, -⟩ := List.getElem?_eq_some_iff.mp h
    rw [getElem?_after hallows.1 hlt, h]
    rintro settlement rfl
    cases h.symm.trans hallows.1

end Network

section

variable {before later : List (Event α)} {items : List (Item α)} {build : List α → Outcome α}

theorem Store.launch_gather (s : Store α) (h : Item.places items ≠ [])
    (build : List α → Outcome α) :
    (s.launch (.ofPlan (.gather (items.map Item.plan) build))).2 = .future s.cells.length := by
  rw [launch, Job.ofPlan, Plan.prospect, Item.prospects_of_places h]

/-- The futures once the combination is made between the events, and all callbacks are called. -/
def statesAround (before later : List (Event α)) (items : List (Item α))
    (build : List α → Outcome α) : Nat → State α :=
  (Store.empty.afterAll (before ++ .gather items build :: later)).state

theorem state_gathered (hallows : Network.AllowsAll [] (before ++ .gather items build :: later))
    (hne : Item.places items ≠ []) :
    statesAround before later items build (Network.afterAll [] before).length =
      (Node.gathered items build).state
        fun p => (statesAround before later items build p).result? := by
  have hordered := Network.isOrdered_afterAll Network.isOrdered_nil hallows
  have hstore : Store.empty.afterAll (before ++ .gather items build :: later) = _ :=
    Network.store_afterAll Network.isOrdered_nil hallows
  rw [statesAround, hstore]
  apply Network.solves_store hordered
  rw [Network.afterAll, List.foldl_append]
  apply Network.getElem?_afterAll_gathered hallows.later.2
  rw [Network.after, if_neg hne]
  exact List.getElem?_concat_length

/-- A combination of futures is a future. Whatever callback is called when, once all futures among
the items are settled it has come to what it owes them, unless they are spoiled, and then it is
pending. -/
theorem areAnswered_iff (hallows : Network.AllowsAll [] (before ++ .gather items build :: later))
    (hne : Item.places items ≠ []) :
    Machine.EndsIn (before ++ .gather items build :: later)
        (statesAround before later items build) ∧
      ∃ target, ((Store.empty.afterAll before).launch
          (.ofPlan (.gather (items.map Item.plan) build))).2 = .future target ∧
        ((∀ p ∈ Item.places items, (statesAround before later items build p).isPending = false) →
          (Item.AreAnswered (statesAround before later items build) items build target ↔
            ¬ Item.AreSpoiled (statesAround before later items build) items build) ∧
          (statesAround before later items build target = .pending ↔
            Item.AreSpoiled (statesAround before later items build) items build)) := by
  refine ⟨Machine.endsIn_store hallows, (Network.afterAll [] before).length, ?_, ?_⟩
  · have hbefore : Store.empty.afterAll before = _ :=
      Network.store_afterAll Network.isOrdered_nil (Network.allowsAll_of_append hallows)
    rw [Store.launch_gather _ hne, hbefore, Network.store, List.length_map]
  · intro hsettled
    obtain ⟨outcomes, hcome⟩ := Item.exists_comeTo hsettled
    obtain ⟨result, howes⟩ := exists_owes build outcomes
    have htarget := state_gathered hallows hne
    rw [Node.state, hcome] at htarget
    rcases combine_of_owes howes with ⟨hspoils, hcombine⟩ | ⟨hspoils, hcombine⟩
    · rw [hcombine] at htarget
      have hspoiled : Item.AreSpoiled (statesAround before later items build) items build :=
        ⟨outcomes, hcome, hspoils⟩
      refine ⟨iff_of_false ?_ (not_not_intro hspoiled), iff_of_true htarget hspoiled⟩
      rintro ⟨others, other, -, -, hother⟩
      exact Machine.ofOutcome_ne_pending other (hother.symm.trans htarget)
    · rw [hcombine] at htarget
      have hspoiled : ¬ Item.AreSpoiled (statesAround before later items build) items build := by
        rintro ⟨others, hother, hspoilsOthers⟩
        rw [hother.unique hcome] at hspoilsOthers
        exact hspoils hspoilsOthers
      refine ⟨iff_of_true ⟨outcomes, result, hcome, howes, htarget⟩ hspoiled,
        iff_of_false ?_ hspoiled⟩
      rw [htarget]
      exact Machine.ofOutcome_ne_pending result

end

def sources : List (Event Nat) := [.source, .source, .settle 1 (.complete (.ok 21))]

def summands : List (Item Nat) := [.future 0, .value 10, .future 1]

def lateSource : List (Event Nat) := [.settle 0 (.complete (.ok 11))]

def refuse (_ : List Nat) : Outcome Nat := .error (.host "TypeError" "unsupported operand")

theorem allowsAll_summands (build : List Nat → Outcome Nat) :
    Network.AllowsAll [] (sources ++ .gather summands build :: lateSource) := by
  simp [sources, summands, lateSource, Network.AllowsAll, Network.Allows, Network.after,
    Node.Asks, Item.places, Item.place?]

theorem places_summands : Item.places summands ≠ [] := List.cons_ne_nil _ _

theorem settled_summands (build : List Nat → Outcome Nat) : ∀ p ∈ Item.places summands,
    (statesAround sources lateSource summands build p).isPending = false := by
  have hplaces : Item.places summands = [0, 1] := rfl
  rw [hplaces, List.forall_mem_cons, List.forall_mem_singleton]
  exact ⟨rfl, rfl⟩

/-- A sum is there in the end, and one that cannot be built never is. -/
theorem areAnswered_iff_summands :
    (∀ build, Network.AllowsAll [] (sources ++ .gather summands build :: lateSource)) ∧
    Item.places summands ≠ [] ∧
    Item.AreAnswered (statesAround sources lateSource summands fun ns => .ok ns.sum) summands
      (fun ns => .ok ns.sum) 2 ∧
    statesAround sources lateSource summands refuse 2 = .pending := by
  refine ⟨allowsAll_summands, places_summands, ?_, ?_⟩
  · obtain ⟨-, target, htarget, hanswer⟩ :=
      areAnswered_iff (allowsAll_summands fun ns => .ok ns.sum) places_summands
    cases htarget
    apply (hanswer (settled_summands _)).1.mpr
    rintro ⟨outcomes, -, values, failure, -, hfails⟩
    cases hfails
  · obtain ⟨-, target, htarget, hanswer⟩ :=
      areAnswered_iff (allowsAll_summands refuse) places_summands
    cases htarget
    exact (hanswer (settled_summands refuse)).2.mpr
      ⟨[.ok 11, .ok 10, .ok 21], rfl, [11, 10, 21], _, rfl, rfl⟩

/-- A sum that cannot be built is pending after all callbacks are called. -/
theorem not_areAnswered :
    (∃ m, Machine.Runs .empty (sources ++ .gather summands refuse :: lateSource) m ∧
      m.IsQuiet ∧ m.state 0 = .done 11 ∧ m.state 1 = .done 21 ∧ m.state 2 = .pending) ∧
    ¬ ∀ (before later : List (Event Nat)) (items : List (Item Nat))
        (build : List Nat → Outcome Nat),
      Network.AllowsAll [] (before ++ .gather items build :: later) → Item.places items ≠ [] →
        (∀ p ∈ Item.places items,
          (statesAround before later items build p).isPending = false) →
        ∀ target, ((Store.empty.afterAll before).launch
            (.ofPlan (.gather (items.map Item.plan) build))).2 = .future target →
          Item.AreAnswered (statesAround before later items build) items build target := by
  constructor
  · obtain ⟨⟨m, hruns, hquiet⟩, hstates⟩ := Machine.endsIn_store (allowsAll_summands refuse)
    refine ⟨m, hruns, hquiet, ?_⟩
    rw [hstates m hruns hquiet]
    exact ⟨rfl, rfl, rfl⟩
  · intro h
    obtain ⟨outcomes, result, -, -, hresult⟩ :=
      h sources lateSource summands refuse (allowsAll_summands refuse) places_summands
        (settled_summands refuse) 2 rfl
    have hpending : statesAround sources lateSource summands refuse 2 = .pending := rfl
    exact Machine.ofOutcome_ne_pending result (hresult.symm.trans hpending)

end SassData.Future
