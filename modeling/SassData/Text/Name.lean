/-!
# Names

The names of variables, functions and units are ASCII: a letter or an underscore, then letters,
digits, underscores and hyphens. Hyphens and underscores are the same character in the names of
variables, parameters and functions.
-/

namespace SassData.Text

set_option autoImplicit false

def isNameStart (c : Char) : Bool := c.isAlpha || c == '_'

def isNameChar (c : Char) : Bool := c.isAlphanum || c == '_' || c == '-'

def canonicalName (name : String) : String :=
  String.ofList (name.toList.map fun c => if c == '_' then '-' else c)

theorem isNameChar_of_isNameStart {c : Char} (h : isNameStart c) : isNameChar c := by
  simp only [isNameStart, isNameChar, Char.isAlphanum, Bool.or_eq_true] at h ⊢
  rcases h with h | h
  · exact Or.inl (Or.inl (Or.inl h))
  · exact Or.inl (Or.inr h)

end SassData.Text
