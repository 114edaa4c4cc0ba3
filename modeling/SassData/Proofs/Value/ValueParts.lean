import SassData.Proofs.Evaluation.ValueInvariants

/-!
# Parts of values

A value is a list, a map or a single part, and lists and maps come down to the parts in them. So a
property of parts is one of values.
-/

namespace SassData

set_option autoImplicit false

namespace Value

mutual

/-- What stands in the value, however deep in lists and maps, and is neither. -/
def parts : Value → List Value
  | null => [null]
  | bool b => [bool b]
  | number n => [number n]
  | color c => [color c]
  | string text => [string text]
  | list items _ _ => itemParts items
  | map pairs => pairParts pairs
  | custom text identity => [custom text identity]

def itemParts : List Value → List Value
  | [] => []
  | item :: rest => item.parts ++ itemParts rest

def pairParts : List (Value × Value) → List Value
  | [] => []
  | (key, value) :: rest => key.parts ++ value.parts ++ pairParts rest

end

def color? : Value → Option Color
  | color c => some c
  | _ => none

theorem color?_eq_some_iff {v : Value} {c : Color} : v.color? = some c ↔ v = color c := by
  cases v <;> simp [color?]

def string? : Value → Option String
  | string text => some text
  | _ => none

theorem string?_eq_some_iff {v : Value} {text : String} :
    v.string? = some text ↔ v = string text := by
  cases v <;> simp [string?]

def PartsAre (P : Value → Prop) (v : Value) : Prop := ∀ part ∈ v.parts, P part

variable {P : Value → Prop}

theorem partsAre_single {v : Value} (h : v.parts = [v]) : v.PartsAre P ↔ P v := by
  rw [PartsAre, h]
  exact List.forall_mem_singleton

theorem partsAre_list_iff {items : List Value} {separator : Separator} {bracketed : Bool} :
    (list items separator bracketed).PartsAre P ↔ ∀ v ∈ items, v.PartsAre P := by
  simp only [PartsAre, parts]
  induction items with
  | nil => simp [itemParts]
  | cons item rest ih => rw [itemParts, List.forall_mem_append, ih, List.forall_mem_cons]

theorem partsAre_map_iff {pairs : List (Value × Value)} :
    (map pairs).PartsAre P ↔ ∀ pair ∈ pairs, pair.1.PartsAre P ∧ pair.2.PartsAre P := by
  simp only [PartsAre, parts]
  induction pairs with
  | nil => simp [pairParts]
  | cons pair rest ih =>
    rw [pairParts, List.forall_mem_append, List.forall_mem_append, ih, List.forall_mem_cons]

theorem isPartwise_partsAre (h : P .null) : IsPartwise (PartsAre P) :=
  ⟨(partsAre_single rfl).mpr h, partsAre_list_iff, partsAre_map_iff⟩

end Value

end SassData
