import SassData.Proofs.Future.PlanResults

/-!
# The store of a machine

Every future of a machine is a cell of a store: a source with what it was settled with, and any
other with its job. What a future has come to, its cell has come to as well, for nothing is settled
that does not follow from what was settled before. Once nothing is left to be done the states are
the same.
-/

namespace SassData.Future

set_option autoImplicit false

open State (Settles)

variable {α : Type}

def Origin.cell (state : State α) : Origin α → Cell α
  | source => ⟨state, none⟩
  | converted p next restart => ⟨.pending, some ⟨.await p next, restart⟩⟩
  | gathered items build => ⟨.pending, some (.ofPlan (.gather (items.map Item.plan) build))⟩

namespace Machine

def store (m : Machine α) : Store α :=
  ⟨m.made.mapIdx fun place origin => origin.cell (m.state place)⟩

variable {m n : Machine α} {place : Nat} {origin : Origin α}

theorem cell_store (h : m.made[place]? = some origin) :
    m.store.cells[place]? = some (origin.cell (m.state place)) := by
  rw [store, List.getElem?_mapIdx, h]
  rfl

theorem IsSound.length_store (h : m.IsSound) : m.store.cells.length = m.states.length := by
  rw [store, List.length_mapIdx, h.length]

theorem result?_of_settles {a b : State α} (h : Settles a b) {outcome : Outcome α}
    (ho : a.result? = some outcome) : b.result? = some outcome := by
  rcases h with rfl | rfl
  · cases ho
  · exact ho

theorem result?_ofResult (result : Option (Outcome α)) :
    (State.ofResult result).result? = result := by
  cases result with
  | none => rfl
  | some outcome => cases outcome <;> rfl

/-! ## Cells and futures -/

/-- What the cell of a future is to whoever knows the others. -/
def cellState (m : Machine α) (place : Nat) (origin : Origin α) : State α :=
  (origin.cell (m.state place)).state m.known m.states.length

theorem cellState_source (m : Machine α) (place : Nat) :
    m.cellState place .source = m.state place := by
  rw [cellState, Origin.cell, Cell.state]
  cases m.state place <;> rfl

theorem state_store_source (h : m.made[place]? = some .source) :
    m.store.state place = m.state place := by
  rw [Store.state_of_cell _ (cell_store h), Origin.cell, Cell.state]
  cases m.state place <;> rfl

theorem cellState_converted (m : Machine α) (place p : Nat) (next restart : α → Plan α) :
    m.cellState place (.converted p next restart) = .ofResult
      ((Plan.await p next).result? m.known
        (Job.again? ⟨.await p next, restart⟩ m.known m.states.length)) := rfl

theorem cellState_gathered (m : Machine α) (place : Nat) {items : List (Item α)}
    (h : Item.places items ≠ []) (build : List α → Outcome α) :
    m.cellState place (.gathered items build) =
      .ofResult (Plan.combine build (items.map (Item.result? m.known))) := by
  have hstate : m.cellState place (.gathered items build) = .ofResult
      ((Plan.gather (items.map Item.plan) build).result? m.known
        (Job.again? (.ofPlan (.gather (items.map Item.plan) build)) m.known m.states.length)) := rfl
  rw [hstate, Plan.result?, Item.prospects_of_places h, Item.results_map_plan]

theorem IsSound.approaches_cell (h : m.IsSound) (hmade : m.made[place]? = some origin) :
    Approaches m (m.known place) (m.cellState place origin).result? := by
  cases origin with
  | source =>
    rw [cellState_source]
    exact approaches_refl m _
  | converted p next restart =>
    rw [cellState_converted, result?_ofResult]
    exact h.approaches_converted hmade (Nat.le_add_right _ _) fun a => h.isRead _ _ (next a)
  | gathered items build =>
    rw [cellState_gathered _ _ (h.gathers place items build hmade), result?_ofResult]
    exact h.approaches_gathered hmade

/-! ## What is settled follows from what was -/

theorem IsSound.cellState_of_answer (h : m.IsSound) {p : Nat} {next restart : α → Plan α} {a : α}
    {answer : Answer α} {outcome : Outcome α} (hp : m.known p = some (.ok a))
    (hb : Becomes m.made restart (place + 1) (next a) answer.plan)
    (ha : answer.result? m.known = some outcome) :
    (m.cellState place (.converted p next restart)).result? = some outcome := by
  have hread := h.isRead ⟨.await p next, restart⟩ m.states.length (next a) (place + 1) answer.plan
    (Nat.le_add_right _ _) hb
  rw [Answer.result?_plan] at hread
  rw [cellState_converted, result?_ofResult, Plan.result?, hp]
  exact hread.only outcome ha

theorem known_settle {target q : Nat} {state : State α} {outcome : Outcome α}
    (ho : (m.settle target state).known q = some outcome) :
    m.known q = some outcome ∨ q = target ∧ state.result? = some outcome := by
  by_cases hq : q = target
  · subst hq
    rcases settles_settle m q q state with hpending | heq
    · by_cases hlt : q < m.states.length
      · rw [known, state_settle m hlt hpending] at ho
        exact Or.inr ⟨rfl, ho⟩
      · have hle : (m.settle q state).states.length ≤ q := by
          rw [(changes_settle m q state).length]
          exact Nat.le_of_not_lt hlt
        rw [known, state_of_le hle] at ho
        cases ho
    · rw [known, ← heq] at ho
      exact Or.inl ho
  · rw [known, state_settle_ne m hq] at ho
    exact Or.inl ho

/-- A step settles a future with what its cell has come to by then. -/
theorem IsSound.cellState_of_steps (h : m.IsSound) (hs : Steps m n) {outcome : Outcome α}
    (ho : n.known place = some outcome) :
    m.known place = some outcome ∨ ∃ origin, m.made[place]? = some origin ∧
      (m.cellState place origin).result? = some outcome := by
  cases hs with
  | @advance _ _ _ _ _ _ made ht ha =>
    rw [known, state_makeAny] at ho
    exact Or.inl ho
  | @conclude before after target answer restart ht =>
    have hmem : (⟨some target, answer.plan, restart⟩ : Task α) ∈ m.tasks := by rw [ht]; simp
    obtain ⟨p, next, a, hmade, hp, hb⟩ := h.works hmem
    have hanswer {state : State α} (hstate : state.result? = answer.result? m.known)
        (hk : (m.settle target state).known place = some outcome) :
        m.known place = some outcome ∨ ∃ origin, m.made[place]? = some origin ∧
          (m.cellState place origin).result? = some outcome := by
      rcases known_settle hk with hold | ⟨rfl, hnew⟩
      · exact Or.inl hold
      · exact Or.inr ⟨_, hmade, h.cellState_of_answer hp hb (hstate.symm.trans hnew)⟩
    cases answer with
    | value b => exact hanswer rfl ho
    | failure failure => exact hanswer rfl ho
    | future q => exact Or.inl ho
  | @call before after q callback hw hp =>
    have hmem : (q, callback) ∈ m.waiting := by rw [hw]; simp
    obtain ⟨result, hresult⟩ := exists_result? hp
    cases h.waits hmem with
    | @convert target next restart hmade =>
      rw [call, hresult] at ho
      cases result with
      | ok a => exact Or.inl ho
      | error failure =>
        rcases known_settle ho with hold | ⟨rfl, hnew⟩
        · exact Or.inl hold
        · refine Or.inr ⟨_, hmade, ?_⟩
          have hq : m.known q = some (.error failure) := hresult
          rw [cellState_converted, result?_ofResult, Plan.result?, hq]
          exact hnew
    | @forward target p next restart a hmade hk hb =>
      rcases known_settle ho with hold | ⟨rfl, hnew⟩
      · exact Or.inl hold
      · rw [result?_ofResult] at hnew
        have hfuture : Becomes m.made restart (place + 1) (next a) (Answer.future q).plan := hb
        exact Or.inr ⟨_, hmade, h.cellState_of_answer hk hfuture hnew⟩
    | @count target items build hmade =>
      rw [call] at ho
      dsimp only at ho
      split at ho
      · rcases known_settle ho with hold | ⟨rfl, hnew⟩
        · exact Or.inl hold
        · refine Or.inr ⟨_, hmade, ?_⟩
          rw [cellState_gathered _ _ (h.gathers _ items build hmade)]
          exact hnew
      · exact Or.inl ho

theorem IsSound.state_of_steps (h : m.IsSound) (hs : Steps m n)
    (hmade : m.made[place]? = some .source) : n.state place = m.state place := by
  rcases hs.settles place with hpending | heq
  · have hnone : n.known place = none := by
      rw [Option.eq_none_iff_forall_ne_some]
      intro outcome ho
      have hold : (m.state place).result? = some outcome := by
        rcases h.cellState_of_steps hs ho with hold | ⟨origin, ho, hcell⟩
        · exact hold
        · rw [hmade] at ho
          cases ho
          rwa [cellState_source] at hcell
      rw [hpending] at hold
      cases hold
    rw [hpending, state_eq_pending hnone]
  · exact heq.symm

/-! ## The states of the store -/

theorem grows_store (hmade : m.made <+: n.made) (hstates : ∀ q, Settles (m.state q) (n.state q)) :
    m.store.Grows n.store := by
  intro q c hc
  rw [store, List.getElem?_mapIdx, Option.map_eq_some_iff] at hc
  obtain ⟨origin, ho, rfl⟩ := hc
  have hcell := cell_store (getElem?_of_isPrefix hmade ho)
  cases origin with
  | converted | gathered => exact Or.inl hcell
  | source =>
    rcases hstates q with hpending | heq
    · obtain ⟨hlt, -⟩ := List.getElem?_eq_some_iff.mp hcell
      exact Or.inr ⟨by rw [hpending]; rfl, hlt⟩
    · rw [heq]
      exact Or.inl hcell

/-- Every future that has come to something is there in the store with the same result. -/
def IsGrounded (m : Machine α) : Prop := Extends m.known m.store.result?

theorem isGrounded_empty : IsGrounded (empty : Machine α) := nofun

theorem IsGrounded.result?_of_cell (hg : m.IsGrounded) (h : m.IsSound)
    (hmade : m.made[place]? = some origin) {outcome : Outcome α}
    (ho : (m.cellState place origin).result? = some outcome) :
    m.store.result? place = some outcome := by
  have hsettles := (origin.cell (m.state place)).state_settles hg (Nat.le_of_eq h.length_store.symm)
  rw [← Store.state_of_cell _ (cell_store hmade)] at hsettles
  exact result?_of_settles hsettles ho

theorem IsGrounded.steps (hg : m.IsGrounded) (h : m.IsSound) (hs : Steps m n) : n.IsGrounded := by
  have hgrows := (grows_store hs.made_prefix hs.settles).extends
  intro q outcome ho
  apply hgrows
  rcases h.cellState_of_steps hs ho with hold | ⟨origin, hmade, hcell⟩
  · exact hg q outcome hold
  · exact hg.result?_of_cell h hmade hcell

theorem IsGrounded.make (hg : m.IsGrounded) (origin : Origin α) : (m.make origin).IsGrounded := by
  have hgrows : m.store.Grows (m.make origin).store :=
    grows_store (List.prefix_append _ _) fun q => Or.inr (state_make m origin q).symm
  rw [IsGrounded, known_make]
  exact fun q outcome ho => hgrows.extends q outcome (hg q outcome ho)

theorem IsGrounded.settle (hg : m.IsGrounded) (h : m.made[place]? = some .source)
    (state : State α) : (m.settle place state).IsGrounded := by
  have hgrows : m.store.Grows (m.settle place state).store :=
    grows_store (List.prefix_refl _) (settles_settle m place · state)
  intro q outcome ho
  rcases known_settle ho with hold | ⟨rfl, -⟩
  · exact hgrows.extends q outcome (hg q outcome hold)
  · have hsource : (m.settle q state).store.state q = (m.settle q state).state q :=
      state_store_source h
    rw [Store.result?, hsource]
    exact ho

/-- Where nothing is left to be done, nothing is missing. -/
theorem IsSound.extends_known (h : m.IsSound) (hquiet : m.IsQuiet) :
    Extends m.store.result? m.known := by
  have hcell (f : Cell α → State α)
      (hf : ∀ c : Cell α, Settles (f c) (c.state m.known m.store.cells.length)) :
      Extends (Store.lookup (m.store.cells.map f)) m.known := by
    intro q outcome ho
    rw [Store.lookup_map] at ho
    obtain ⟨c, hc, ho⟩ := Option.bind_eq_some_iff.mp ho
    rw [store, List.getElem?_mapIdx, Option.map_eq_some_iff] at hc
    obtain ⟨origin, hmade, rfl⟩ := hc
    have hsettles := hf (origin.cell (m.state q))
    rw [h.length_store] at hsettles
    exact (h.approaches_cell hmade).all hquiet outcome (result?_of_settles hsettles ho)
  have hstage (k : Nat) : Extends (Store.lookup (m.store.statesAfter k)) m.known := by
    induction k with
    | zero => exact hcell Cell.outside fun c => c.settles_state _ _
    | succ k ih => exact hcell _ fun c => c.state_settles ih (Nat.le_refl _)
  rw [Store.result?_eq_lookup]
  exact hstage _

/-- A future that is no source is in no other state than its result tells. -/
theorem IsSound.state_eq_ofResult (h : m.IsSound) (hmade : m.made[place]? = some origin)
    (hne : origin ≠ .source) : m.state place = .ofResult (m.known place) := by
  have hpending (hs : m.state place = .pending) : m.state place = .ofResult (m.known place) := by
    rw [known, hs]
    rfl
  cases h.progress place origin hmade with
  | source => exact absurd rfl hne
  | converting hs | working hs | forwarding hs | counting hs => exact hpending hs
  | failed hs =>
    rw [known, hs]
    rfl
  | @answered _ _ _ _ _ outcome hs =>
    rw [known, hs]
    cases outcome <;> rfl
  | gathered hs => rw [known, hs, result?_ofResult]

/-- Once nothing is left to be done, the states are those that are read off the store. -/
theorem IsSound.state_eq_store (h : m.IsSound) (hg : m.IsGrounded) (hquiet : m.IsQuiet) :
    m.state = m.store.state := by
  have hknown : m.store.result? = m.known := by
    funext q
    exact Option.ext fun outcome => ⟨h.extends_known hquiet q outcome, hg q outcome⟩
  funext q
  cases hmade : m.made[q]? with
  | none =>
    have hle := List.getElem?_eq_none_iff.mp hmade
    have hstore : m.store.states.length ≤ q := by
      rw [Store.length_states, h.length_store, h.length]
      exact hle
    rw [state_of_le (h.length ▸ hle), Store.state, List.getElem?_eq_none hstore]
    rfl
  | some origin =>
    rw [Store.state_of_cell _ (cell_store hmade), hknown, h.length_store]
    have hcell := (h.approaches_cell hmade).eq hquiet
    cases origin with
    | source => exact (cellState_source m q).symm
    | converted p next restart =>
      rw [cellState_converted, result?_ofResult] at hcell
      rw [h.state_eq_ofResult hmade (by rintro ⟨⟩), hcell]
      rfl
    | gathered items build =>
      have hstate := cellState_gathered m q (h.gathers q items build hmade) build
      rw [hstate, result?_ofResult] at hcell
      rw [h.state_eq_ofResult hmade (by rintro ⟨⟩), hcell]
      exact hstate.symm

end Machine

end SassData.Future
