/-!
# Things under names

An association of names with things that remembers in which order the names first came up. Giving a
name another thing leaves it at its place.
-/

namespace SassData

set_option autoImplicit false

/-- Values under names, in the order in which the names first came up. -/
abbrev Named (α : Type) := List (String × α)

namespace Named

variable {α : Type}

def put (name : String) (a : α) : Named α → Named α
  | [] => [(name, a)]
  | (n, b) :: rest => if n == name then (n, a) :: rest else (n, b) :: put name a rest

def get? : Named α → String → Option α
  | [], _ => none
  | (n, a) :: rest, name => if n == name then some a else get? rest name

def remove (name : String) (names : Named α) : Named α := names.filter (·.1 != name)

theorem get?_put_self (names : Named α) (name : String) (a : α) :
    (names.put name a).get? name = some a := by
  induction names with
  | nil => simp [put, get?]
  | cons entry rest ih =>
    obtain ⟨n, b⟩ := entry
    by_cases h : n = name
    · simp [put, get?, h]
    · simpa [put, get?, h] using ih

theorem get?_put_of_ne (names : Named α) {name other : String} (h : name ≠ other) (a : α) :
    (names.put name a).get? other = names.get? other := by
  induction names with
  | nil => simp [put, get?, h]
  | cons entry rest ih =>
    obtain ⟨n, b⟩ := entry
    by_cases hn : n = name
    · subst hn
      simp [put, get?, h]
    · simp [put, get?, hn, ih]

end Named

end SassData
