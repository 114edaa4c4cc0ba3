/-!
# Identity

What has no equality of its own is equal to itself only: a result that is no number, and a value of
which nothing but the text is known. The identity tells which one it is. What a computation makes on
the way is met by nothing else as long as it has no name, so all of it shares one identity that is
not even equal to itself; what is held under a name is told apart by a count.
-/

namespace SassData

set_option autoImplicit false

inductive Identity
  /-- The one result of dividing zero by zero and of every remainder by zero. -/
  | undivided
  /-- The one that all data files write. -/
  | written
  /-- One of those made on the way. -/
  | passing
  /-- One of those held under a name. -/
  | held (count : Nat)
  deriving DecidableEq

namespace Identity

def same : Identity → Identity → Bool
  | passing, _ => false
  | i, j => i == j

/-- The identity under a name, with how many have one so far. -/
def hold (count : Nat) : Identity → Identity × Nat
  | passing => (held count, count + 1)
  | i => (i, count)

theorem eq_of_same {i j : Identity} (h : i.same j = true) : i = j := by
  cases i <;> simp [same] at h <;> exact h

theorem same_self_iff (i : Identity) : i.same i = true ↔ i ≠ passing := by
  cases i <;> simp [same]

theorem hold_ne_passing (count : Nat) (i : Identity) : (i.hold count).1 ≠ passing := by
  cases i <;> simp [hold]

theorem hold_of_ne_passing (count : Nat) {i : Identity} (h : i ≠ passing) :
    i.hold count = (i, count) := by
  cases i <;> simp_all [hold]

end Identity

end SassData
