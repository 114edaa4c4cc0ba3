import Mathlib.Data.List.Forall2
import Mathlib.Order.Monotone.Basic
import SassData.Future

/-!
# The states of futures

What is known at one stage stays known at the next, and after as many stages as there are cells
nothing more is learnt. So the states are a fixed point: a job has come to what it makes of the
states themselves, and no stage is seen from outside.
-/

namespace SassData

set_option autoImplicit false

/-- Whatever is known stays known as it is. -/
def Extends {β : Type} (known more : Nat → Option β) : Prop :=
  ∀ place b, known place = some b → more place = some b

namespace Plan

variable {α : Type} {known more again further : Nat → Option (Outcome α)}

theorem combine_extends {build : List α → Outcome α} {results others : List (Option (Outcome α))}
    {result : Outcome α}
    (h : ∀ outcomes, results.mapM id = some outcomes → others.mapM id = some outcomes)
    (hr : combine build results = some result) : combine build others = some result := by
  rw [combine, collect] at hr ⊢
  cases hm : results.mapM id with
  | none =>
    rw [hm] at hr
    cases hr
  | some outcomes =>
    rw [hm] at hr
    rw [h outcomes hm]
    exact hr

mutual

theorem result?_extends (hk : Extends known more) (ha : Extends again further) (plan : Plan α)
    {result : Outcome α} (h : plan.result? known again = some result) :
    plan.result? more further = some result := by
  match plan with
  | .done a =>
    simp only [result?] at h ⊢
    exact h
  | .failed failure =>
    simp only [result?] at h ⊢
    exact h
  | .existing place =>
    simp only [result?] at h ⊢
    exact hk place result h
  | .again place =>
    simp only [result?] at h ⊢
    exact ha place result h
  | .await place next =>
    simp only [result?] at h ⊢
    cases hp : known place with
    | none =>
      rw [hp] at h
      cases h
    | some outcome =>
      rw [hp] at h
      rw [hk place outcome hp]
      cases outcome with
      | error failure => exact h
      | ok a => exact result?_extends hk ha (next a) h
  | .gather items build =>
    simp only [result?] at h ⊢
    cases hp : prospects items with
    | value values =>
      rw [hp] at h
      exact h
    | failure failure =>
      rw [hp] at h
      exact h
    | later =>
      rw [hp] at h
      exact combine_extends (fun _ => results_extends hk ha items) h

theorem results_extends (hk : Extends known more) (ha : Extends again further)
    (items : List (Plan α)) {outcomes : List (Outcome α)}
    (h : (results known again items).mapM id = some outcomes) :
    (results more further items).mapM id = some outcomes := by
  match items with
  | [] => exact h
  | plan :: rest =>
    simp only [results, List.mapM_cons, Option.bind_eq_bind, Option.bind_eq_some_iff, id] at h ⊢
    obtain ⟨result, hp, others, hrest, hall⟩ := h
    exact ⟨result, result?_extends hk ha plan hp, others, results_extends hk ha rest hrest, hall⟩

end

end Plan

namespace Job

variable {α : Type} {known more : Nat → Option (Outcome α)}

theorem again?_extends (j : Job α) (h : Extends known more) {n k : Nat} (hn : n ≤ k) :
    Extends (j.again? known n) (j.again? more k) := by
  induction n generalizing k with
  | zero =>
    intro place result hr
    cases hr
  | succ n ih =>
    obtain ⟨k, rfl⟩ := Nat.exists_eq_add_one_of_ne_zero (Nat.ne_zero_of_lt hn)
    have hrest := ih (Nat.le_of_succ_le_succ hn)
    intro place result hr
    rw [again?] at hr ⊢
    cases hp : known place with
    | none =>
      rw [hp] at hr
      cases hr
    | some outcome =>
      rw [hp] at hr
      rw [h place outcome hp]
      cases outcome with
      | error failure => exact hr
      | ok a => exact Plan.result?_extends h hrest (j.restart a) hr

theorem result?_extends (j : Job α) (h : Extends known more) {n k : Nat} (hn : n ≤ k)
    {outcome : Outcome α} (hr : j.result? known n = some outcome) :
    j.result? more k = some outcome :=
  Plan.result?_extends h (j.again?_extends h hn) j.plan hr

end Job

namespace Future

/-- A pending state may become any other, and no other changes. -/
def State.Settles {α : Type} (a b : State α) : Prop := a = .pending ∨ a = b

open State (Settles)

variable {α : Type}

theorem State.eq_of_settles {a b : State α} (h : Settles a b) (hp : a ≠ .pending) : a = b :=
  h.resolve_left hp

theorem State.Settles.trans {a b c : State α} (h : Settles a b) (h' : Settles b c) :
    Settles a c := by
  rcases h with hpending | rfl
  · exact Or.inl hpending
  · exact h'

theorem Cell.settles_state (c : Cell α) (known : Nat → Option (Outcome α)) (size : Nat) :
    Settles c.outside (c.state known size) := by
  unfold Cell.state
  split
  · next h _ => exact Or.inl h
  · exact Or.inr rfl

theorem Cell.state_settles {known more : Nat → Option (Outcome α)} (h : Extends known more)
    (c : Cell α) {size larger : Nat} (hsize : size ≤ larger) :
    Settles (c.state known size) (c.state more larger) := by
  unfold Cell.state
  split
  · next j _ _ =>
    cases hr : j.result? known size with
    | none => exact Or.inl rfl
    | some outcome =>
      rw [j.result?_extends h hsize hr]
      exact Or.inr rfl
  · exact Or.inr rfl

namespace Store

theorem lookup_extends {xs ys : List (State α)} (h : List.Forall₂ Settles xs ys) :
    Extends (lookup xs) (lookup ys) := by
  induction h with
  | nil =>
    intro place result hr
    cases hr
  | @cons x y xs ys hxy _ ih =>
    intro place result hr
    cases place with
    | zero =>
      have hx : x ≠ .pending := by
        rintro rfl
        cases hr
      rw [State.eq_of_settles hxy hx] at hr
      exact hr
    | succ place => exact ih place result hr

theorem statesAfter_settles (s : Store α) (n : Nat) :
    List.Forall₂ Settles (s.statesAfter n) (s.statesAfter (n + 1)) := by
  induction n with
  | zero =>
    simp only [statesAfter, List.forall₂_map_left_iff, List.forall₂_map_right_iff,
      List.forall₂_same]
    intro c _
    exact c.settles_state _ _
  | succ n ih =>
    rw [statesAfter, statesAfter]
    simp only [List.forall₂_map_left_iff, List.forall₂_map_right_iff, List.forall₂_same]
    intro c _
    exact c.state_settles (lookup_extends ih) (Nat.le_refl _)

/-! ## The last stage -/

def settled (states : List (State α)) : Nat := states.countP fun state => !state.isPending

theorem settled_cons (state : State α) (states : List (State α)) :
    settled (state :: states) = settled states + if state.isPending then 0 else 1 := by
  rw [settled, List.countP_cons]
  cases state.isPending <;> rfl

theorem settled_le_of_settles {xs ys : List (State α)} (h : List.Forall₂ Settles xs ys) :
    settled xs ≤ settled ys ∧ (settled xs = settled ys → xs = ys) := by
  induction h with
  | nil => exact ⟨Nat.le_refl _, fun _ => rfl⟩
  | @cons x y xs ys hxy _ ih =>
    obtain ⟨hle, heq⟩ := ih
    rw [settled_cons, settled_cons]
    by_cases hsame : x = y
    · subst hsame
      constructor
      · omega
      · intro h
        rw [heq (by omega)]
    · have hx : x = .pending := hxy.resolve_right hsame
      have hy : y.isPending = false := by
        cases y with
        | pending => exact absurd hx hsame
        | cancelled | done | failed => rfl
      have hpending : x.isPending = true := by rw [hx]; rfl
      rw [hpending, hy, if_pos rfl, if_neg Bool.false_ne_true]
      constructor
      · omega
      · intro h
        omega

theorem settled_statesAfter_le (s : Store α) (n : Nat) :
    settled (s.statesAfter n) ≤ s.cells.length := by
  have h : settled (s.statesAfter n) ≤ (s.statesAfter n).length := List.countP_le_length
  rw [length_statesAfter] at h
  exact h

/-- After as many stages as there are cells nothing more is learnt. -/
theorem statesAfter_stationary (s : Store α) :
    s.statesAfter (s.cells.length + 1) = s.statesAfter s.cells.length := by
  have hstep (n : Nat) := settled_le_of_settles (s.statesAfter_settles n)
  -- The count of what is settled only grows, and where it stays nothing has been learnt.
  have hmono : Monotone fun n => settled (s.statesAfter n) :=
    monotone_nat_of_le_succ fun n => (hstep n).1
  have hstable (n : Nat) (h : settled (s.statesAfter n) = settled (s.statesAfter (n + 1))) :
      settled (s.statesAfter (n + 1)) = settled (s.statesAfter (n + 2)) := by
    have hsame := (hstep n).2 h
    have hnext : s.statesAfter (n + 1) = s.statesAfter (n + 2) := by
      rw [statesAfter, statesAfter, hsame]
    rw [hnext]
  have hcount := Nat.stabilises_of_monotone hmono s.settled_statesAfter_le hstable
    (Nat.le_succ s.cells.length)
  exact ((hstep _).2 hcount.symm).symm

theorem result?_eq_lookup (s : Store α) : s.result? = lookup s.states := by
  funext place
  rw [result?, state, lookup]
  cases s.states[place]? <;> rfl

/-- The states are a fixed point. -/
theorem state_of_cell (s : Store α) {place : Nat} {c : Cell α} (h : s.cells[place]? = some c) :
    s.state place = c.state s.result? s.cells.length := by
  have hstates : s.states = s.cells.map fun c => c.state s.result? s.cells.length := by
    rw [result?_eq_lookup, states]
    exact (s.statesAfter_stationary).symm
  rw [state, hstates, List.getElem?_map, h]
  rfl

theorem state_of_job (s : Store α) {place : Nat} {j : Job α}
    (h : s.cells[place]? = some ⟨.pending, some j⟩) :
    s.state place = .ofResult (j.result? s.result? s.cells.length) :=
  s.state_of_cell h

/-! ## Stores that grow -/

theorem lookup_map (s : Store α) (f : Cell α → State α) (place : Nat) :
    lookup (s.cells.map f) place = s.cells[place]?.bind fun c => (f c).result? := by
  rw [lookup, List.getElem?_map]
  cases s.cells[place]? <;> rfl

/-- Every cell is there as it was, or it has no job and has been settled. -/
def Grows (s t : Store α) : Prop :=
  ∀ place c, s.cells[place]? = some c →
    t.cells[place]? = some c ∨ c = ⟨.pending, none⟩ ∧ place < t.cells.length

theorem Grows.length_le {s t : Store α} (h : s.Grows t) : s.cells.length ≤ t.cells.length := by
  by_contra hlt
  have hget := List.getElem?_eq_getElem (Nat.lt_of_not_le hlt)
  rcases h _ _ hget with hsame | ⟨-, hself⟩
  · rw [List.getElem?_eq_none (Nat.le_refl _)] at hsame
    cases hsame
  · exact Nat.lt_irrefl _ hself

theorem extends_lookup_map {s t : Store α} (h : s.Grows t) {f g : Cell α → State α}
    (hpending : f ⟨.pending, none⟩ = .pending) (hfg : ∀ c, Settles (f c) (g c)) :
    Extends (lookup (s.cells.map f)) (lookup (t.cells.map g)) := by
  intro place outcome ho
  rw [lookup_map] at ho ⊢
  obtain ⟨c, hc, ho⟩ := Option.bind_eq_some_iff.mp ho
  rcases h place c hc with hsame | ⟨rfl, -⟩
  · rcases hfg c with hnone | heq
    · rw [hnone] at ho
      cases ho
    · rw [hsame, Option.bind_some, ← heq]
      exact ho
  · rw [hpending] at ho
    cases ho

theorem Grows.extends {s t : Store α} (h : s.Grows t) : Extends s.result? t.result? := by
  have hstage (n : Nat) : Extends (lookup (s.statesAfter n)) (lookup (t.statesAfter n)) := by
    induction n with
    | zero => exact extends_lookup_map h rfl fun _ => Or.inr rfl
    | succ n ih => exact extends_lookup_map h rfl fun c => c.state_settles ih h.length_le
  have hlater {n k : Nat} (hn : n ≤ k) :
      Extends (lookup (t.statesAfter n)) (lookup (t.statesAfter k)) := by
    induction hn with
    | refl => exact fun _ _ => id
    | @step k _ ih =>
      exact fun place outcome ho => lookup_extends (t.statesAfter_settles k) place outcome
        (ih place outcome ho)
  rw [result?_eq_lookup, result?_eq_lookup]
  exact fun place outcome ho => hlater h.length_le place outcome (hstage _ place outcome ho)

theorem lt_of_result? (s : Store α) {place : Nat} {outcome : Outcome α}
    (h : s.result? place = some outcome) : place < s.cells.length := by
  rw [result?_eq_lookup, lookup] at h
  obtain ⟨state, hs, -⟩ := Option.bind_eq_some_iff.mp h
  obtain ⟨hlt, -⟩ := List.getElem?_eq_some_iff.mp hs
  rw [length_states] at hlt
  exact hlt

end Store

end Future

end SassData
