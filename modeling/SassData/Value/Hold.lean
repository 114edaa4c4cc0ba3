import SassData.Value

/-!
# Values under a name

A value that a variable holds is met again wherever the variable is used. So what the value has that
was made on the way, results that are no number and values of which only the text is known, gets an
identity of its own when the value is held. The count says how many have got one so far. Nothing
else about the value changes.
-/

namespace SassData

set_option autoImplicit false

def Number.Binary64.hold (count : Nat) : Number.Binary64 → Number.Binary64 × Nat
  | .nan negative identity =>
    let (identity, count) := identity.hold count
    (.nan negative identity, count)
  | x => (x, count)

def Number.Magnitude.hold (count : Nat) : Number.Magnitude → Number.Magnitude × Nat
  | .int n => (.int n, count)
  | .float x =>
    let (x, count) := x.hold count
    (.float x, count)

namespace Value

mutual

def hold (count : Nat) : Value → Value × Nat
  | number n =>
    let (magnitude, count) := n.magnitude.hold count
    (number { n with magnitude := magnitude }, count)
  | color c =>
    let (alpha, count) := c.alpha.hold count
    (color { c with alpha := alpha }, count)
  | list items separator bracketed =>
    let (items, count) := holdItems count items
    (list items separator bracketed, count)
  | map pairs =>
    let (pairs, count) := holdPairs count pairs
    (map pairs, count)
  | custom text identity =>
    let (identity, count) := identity.hold count
    (custom text identity, count)
  | v => (v, count)

def holdItems (count : Nat) : List Value → List Value × Nat
  | [] => ([], count)
  | v :: rest =>
    let (v, count) := hold count v
    let (rest, count) := holdItems count rest
    (v :: rest, count)

def holdPairs (count : Nat) : List (Value × Value) → List (Value × Value) × Nat
  | [] => ([], count)
  | (key, v) :: rest =>
    let (key, count) := hold count key
    let (v, count) := hold count v
    let (rest, count) := holdPairs count rest
    ((key, v) :: rest, count)

end

end Value

/-! ## What stays -/

theorem Number.Binary64.styleText_hold (count : Nat) (x : Number.Binary64) :
    (x.hold count).1.styleText = x.styleText := by
  cases x <;> rfl

theorem Number.Binary64.one_le_hold (count : Nat) (x : Number.Binary64) :
    (1 ≤ (x.hold count).1) = (1 ≤ x) := by
  cases x with
  | nan negative identity =>
    change (le 1 _ = true) = (le 1 _ = true)
    rw [le_nan, hold, le_nan]
  | infinity | finite => rfl

theorem Number.Magnitude.styleText_hold (count : Nat) (m : Number.Magnitude) :
    (m.hold count).1.styleText = m.styleText := by
  cases m with
  | int n => rfl
  | float x => exact x.styleText_hold count

namespace Value

theorem inParens_hold (count : Nat) (outer : Separator) (v : Value) :
    inParens outer (v.hold count).1 = inParens outer v := by
  rcases v with _ | _ | _ | _ | _ | ⟨_ | ⟨_, _ | ⟨_, _⟩⟩, _, _ | _⟩ | _ | _ <;>
    simp [hold, holdItems, inParens]

theorem inParensInMap_hold (count : Nat) (v : Value) :
    inParensInMap (v.hold count).1 = inParensInMap v := by
  rcases v with _ | _ | _ | _ | _ | ⟨_ | ⟨_, _ | ⟨_, _⟩⟩, _ | _ | _ | _, _⟩ | _ | _ <;>
    simp [hold, holdItems, inParensInMap]

theorem css_hold_color (count : Nat) (c : Color) :
    (hold count (color c)).1.css = c.css := by
  simp only [hold, css, Color.css, Number.Binary64.styleText_hold, Number.Binary64.one_le_hold]

mutual

/-- A value under a name is shown as before. -/
theorem css_hold (count : Nat) (v : Value) : (v.hold count).1.css = v.css := by
  cases v with
  | number n =>
    simp only [hold, css, Number.css, Number.unitText]
    rw [n.magnitude.styleText_hold]
  | color c => exact css_hold_color count c
  | list items separator bracketed => simp only [hold, css, itemsCss_hold]
  | map pairs => simp only [hold, css, pairsCss_hold]
  | null | bool _ | string _ | custom _ _ => rfl

theorem itemsCss_hold (count : Nat) (outer : Separator) (items : List Value) :
    itemsCss outer (holdItems count items).1 = itemsCss outer items := by
  cases items with
  | nil => rfl
  | cons v rest => simp only [holdItems, itemsCss, inParens_hold, css_hold, itemsCss_hold]

theorem pairsCss_hold (count : Nat) (pairs : List (Value × Value)) :
    pairsCss (holdPairs count pairs).1 = pairsCss pairs := by
  cases pairs with
  | nil => rfl
  | cons pair rest =>
    simp only [holdPairs, pairsCss, inParensInMap_hold, css_hold, pairsCss_hold]

end

end Value

end SassData
