import SassData.Failure

/-!
# Futures

A future is a cell that is settled once: from outside, with a result, a failure or a cancellation,
or by the job it belongs to. A job is a plan: what is to be computed from the results of other
cells. The state of a cell is not stored but read off what the cells have been settled with, in
stages: after every stage a job knows what it could learn from the one before, and there are as
many stages as cells, so that nothing more is to be learnt after the last. A job that waits for
itself is pending for ever.
-/

namespace SassData

set_option autoImplicit false

/-- What is to be computed: something known now, what another future comes to, what follows from the
result of another future, the job over again on the result of another future, or a combination of
several plans. -/
inductive Plan (α : Type)
  | done (a : α)
  | failed (failure : Failure)
  | existing (place : Nat)
  | await (place : Nat) (next : α → Plan α)
  | again (place : Nat)
  | gather (items : List (Plan α)) (build : List α → Outcome α)

namespace Plan

variable {α : Type}

/-- What is known before any future is asked. -/
inductive Prospect (α : Type)
  | value (a : α)
  | failure (failure : Failure)
  | later

namespace Prospect

def ofOutcome : Outcome α → Prospect α
  | .ok a => .value a
  | .error f => .failure f

/-- The first of the failures is the failure of the whole, whatever is still to come. -/
def cons : Prospect α → Prospect (List α) → Prospect (List α)
  | failure f, _ => .failure f
  | _, failure f => .failure f
  | value a, value rest => .value (a :: rest)
  | _, _ => .later

end Prospect

mutual

def prospect : Plan α → Prospect α
  | done a => .value a
  | failed failure => .failure failure
  | existing _ | await .. | again _ => .later
  | gather items build =>
    match prospects items with
    | .value values => .ofOutcome (build values)
    | .failure failure => .failure failure
    | .later => .later

def prospects : List (Plan α) → Prospect (List α)
  | [] => .value []
  | plan :: rest => .cons (prospect plan) (prospects rest)

end

/-- What several results come to: nothing before all are there, then the first failure or, if there
is none, all values. -/
def collect (results : List (Option (Outcome α))) : Option (Outcome (List α)) :=
  (results.mapM id).map fun outcomes => outcomes.mapM id

/-- What a combination comes to. One that fails on results that came late is never settled. -/
def combine (build : List α → Outcome α) (results : List (Option (Outcome α))) :
    Option (Outcome α) :=
  match collect results with
  | none => none
  | some (.error failure) => some (.error failure)
  | some (.ok values) =>
    match build values with
    | .ok a => some (.ok a)
    | .error _ => none

mutual

/-- What a plan has come to, given what the futures have and what the job makes of them. -/
def result? (known again : Nat → Option (Outcome α)) : Plan α → Option (Outcome α)
  | done a => some (.ok a)
  | failed failure => some (.error failure)
  | existing place => known place
  | await place next =>
    match known place with
    | none => none
    | some (.error failure) => some (.error failure)
    | some (.ok a) => result? known again (next a)
  | .again place => again place
  | gather items build =>
    match prospects items with
    | .value values => some (build values)
    | .failure failure => some (.error failure)
    | .later => combine build (results known again items)

def results (known again : Nat → Option (Outcome α)) : List (Plan α) → List (Option (Outcome α))
  | [] => []
  | plan :: rest => result? known again plan :: results known again rest

end

end Plan

structure Job (α : Type) where
  plan : Plan α
  restart : α → Plan α

namespace Job

variable {α : Type}

/-- What the job makes of the future at a place, by way of at most a number of futures. -/
def again? (j : Job α) (known : Nat → Option (Outcome α)) : Nat → Nat → Option (Outcome α)
  | 0, _ => none
  | n + 1, place =>
    match known place with
    | none => none
    | some (.error failure) => some (.error failure)
    | some (.ok a) => (j.restart a).result? known (j.again? known n)

/-- What the job has come to when there are a number of futures: a way through more of them leads
in a circle. -/
def result? (j : Job α) (known : Nat → Option (Outcome α)) (size : Nat) : Option (Outcome α) :=
  j.plan.result? known (j.again? known size)

def ofPlan (plan : Plan α) : Job α := ⟨plan, Plan.done⟩

end Job

namespace Future

inductive State (α : Type)
  | pending
  | cancelled
  | done (a : α)
  | failed (failure : Failure)

namespace State

variable {α : Type}

def isPending : State α → Bool
  | pending => true
  | _ => false

/-- What a state means to whoever waits: a cancellation is a failure. -/
def result? : State α → Option (Outcome α)
  | pending => none
  | cancelled => some (.error .cancelled)
  | done a => some (.ok a)
  | failed failure => some (.error failure)

def ofOutcome : Outcome α → State α
  | .ok a => .done a
  | .error failure => .failed failure

def ofResult : Option (Outcome α) → State α
  | none => .pending
  | some outcome => ofOutcome outcome

end State

/-- What a cell was settled with from outside, and its job if it has one. -/
structure Cell (α : Type) where
  outside : State α
  job : Option (Job α)

/-- What a cell is to whoever knows the others: what it was settled with comes first. -/
def Cell.state {α : Type} (c : Cell α) (known : Nat → Option (Outcome α)) (size : Nat) : State α :=
  match c.outside, c.job with
  | .pending, some j => .ofResult (j.result? known size)
  | state, _ => state

/-- All futures; the place of one is its place in the list. -/
structure Store (α : Type) where
  cells : List (Cell α)

inductive Begun (α : Type)
  | now (a : α)
  | failed (failure : Failure)
  | future (place : Nat)

namespace Store

variable {α : Type}

def empty : Store α := ⟨[]⟩

def lookup (states : List (State α)) (place : Nat) : Option (Outcome α) :=
  states[place]?.bind State.result?

def statesAfter (s : Store α) : Nat → List (State α)
  | 0 => s.cells.map Cell.outside
  | n + 1 =>
    let known := lookup (s.statesAfter n)
    s.cells.map fun c => c.state known s.cells.length

def states (s : Store α) : List (State α) := s.statesAfter s.cells.length

def state (s : Store α) (place : Nat) : State α := s.states[place]?.getD .pending

def result? (s : Store α) (place : Nat) : Option (Outcome α) := (s.state place).result?

theorem length_statesAfter (s : Store α) (n : Nat) : (s.statesAfter n).length = s.cells.length := by
  cases n <;> simp [statesAfter]

theorem length_states (s : Store α) : s.states.length = s.cells.length := s.length_statesAfter _

/-- A new cell that is settled from outside. -/
def allocate (s : Store α) (state : State α) : Store α × Nat :=
  (⟨s.cells ++ [⟨state, none⟩]⟩, s.cells.length)

/-- Begins a job. What is known at once needs no future, and what a future comes to is that future;
for anything else there is a new one. -/
def launch (s : Store α) (j : Job α) : Store α × Begun α :=
  match j.plan.prospect, j.plan with
  | .value a, _ => (s, .now a)
  | .failure failure, _ => (s, .failed failure)
  | .later, .existing place => (s, .future place)
  | .later, _ => (⟨s.cells ++ [⟨.pending, some j⟩]⟩, .future s.cells.length)

def settle (s : Store α) (place : Nat) (state : State α) : Store α :=
  ⟨s.cells.modify place fun c => { c with outside := state }⟩

/-- Settles a cell from outside; one that is settled is a failure. -/
def complete (s : Store α) (place : Nat) (outcome : Outcome α) : Outcome (Store α) :=
  if (s.state place).isPending then .ok (s.settle place (.ofOutcome outcome))
  else .error .alreadySettled

theorem complete_of_not_pending {s : Store α} {place : Nat} (h : (s.state place).isPending = false)
    (outcome : Outcome α) : s.complete place outcome = .error .alreadySettled := by
  simp [complete, h]

/-- Cancels a cell; it tells whether the cell is cancelled now. -/
def cancel (s : Store α) (place : Nat) : Store α × Bool :=
  match s.state place with
  | .pending => (s.settle place .cancelled, true)
  | .cancelled => (s, true)
  | _ => (s, false)

end Store

end Future

end SassData
