import Mathlib.Data.List.Forall2
import SassData.Proofs.Value.MapKeys

/-!
# Equality of lists and maps

The equality of the language forgives strings their marks, and numbers a small difference and the
order of their units. It does so for two values only and not for what stands in them: inside lists
and maps it asks for the same structure. So lists and maps whose parts are equal, pair by pair, are
equal exactly if no two of these parts have anything to forgive each other.
-/

namespace SassData.Value

set_option autoImplicit false

/-- Equal values, lists with the same brackets whose items match one by one, and maps whose keys and
values do. -/
inductive Matches : Value → Value → Prop
  | equal {a b : Value} (h : a.equals b = .ok true) : Matches a b
  | list {xs ys : List Value} {s t : Separator} {bracketed : Bool}
    (h : List.Forall₂ Matches xs ys) : Matches (.list xs s bracketed) (.list ys t bracketed)
  | map {ps qs : List (Value × Value)}
    (hkeys : List.Forall₂ Matches (ps.map Prod.fst) (qs.map Prod.fst))
    (hvalues : List.Forall₂ Matches (ps.map Prod.snd) (qs.map Prod.snd)) :
    Matches (.map ps) (.map qs)

/-- Strings that enclose one text in different ways, and numbers that are equal but have other
magnitudes or their units in another order. -/
def IsForgiven : Value → Value → Prop
  | string s, string t => Text.unquote s = Text.unquote t ∧ s ≠ t
  | number m, number n =>
    (number m).equals (number n) = .ok true ∧
      ¬ (m.magnitude.same n.magnitude = true ∧ m.above = n.above ∧ m.below = n.below)
  | _, _ => False

mutual

/-- What stands at the same places inside two lists or two maps, however deep. -/
def within : Value → Value → List (Value × Value)
  | list xs _ _, list ys _ _ => itemsWithin xs ys
  | map ps, map qs => pairsWithin ps qs
  | _, _ => []

def itemsWithin : List Value → List Value → List (Value × Value)
  | x :: xs, y :: ys => (x, y) :: (within x y ++ itemsWithin xs ys)
  | _, _ => []

def pairsWithin : List (Value × Value) → List (Value × Value) → List (Value × Value)
  | (k, v) :: ps, (l, w) :: qs =>
    (k, l) :: (v, w) :: (within k l ++ within v w ++ pairsWithin ps qs)
  | _, _ => []

end

/-! ## What is the same has nothing to forgive -/

theorem not_isForgiven_of_same {a b : Value} (h : a.same b = true) : ¬ IsForgiven a b := by
  intro hf
  unfold IsForgiven at hf
  split at hf
  · simp only [same, beq_iff_eq] at h
    exact hf.2 h
  · simp only [same, Bool.and_eq_true, beq_iff_eq] at h
    exact hf.2 ⟨h.1.1, h.1.2, h.2⟩
  · exact hf

theorem same_of_equals {a b : Value} (h : a.equals b = .ok true) (hf : ¬ IsForgiven a b) :
    a.same b = true := by
  unfold IsForgiven at hf
  split at hf
  · next s t =>
    have hpayload : Text.unquote s = Text.unquote t := beq_iff_eq.mp (Except.ok.inj h)
    simpa only [same, beq_iff_eq, not_and, not_not, hpayload, true_implies] using hf
  · next m n =>
    have hsame : m.magnitude.same n.magnitude = true ∧ m.above = n.above ∧ m.below = n.below := by
      by_contra hne
      exact hf ⟨h, hne⟩
    simp only [same, hsame, beq_self_eq_true, Bool.and_self]
  · next hstring hnumber =>
    unfold equals at h
    split at h
    · exact absurd rfl (hstring _ _ rfl)
    · exact absurd rfl (hnumber _ _ rfl)
    · exact Except.ok.inj h

theorem equals_list (xs ys : List Value) (s t : Separator) (p q : Bool) :
    (list xs s p).equals (list ys t q) = .ok (sameItems xs ys && p == q) := rfl

theorem equals_map (ps qs : List (Value × Value)) :
    (map ps).equals (map qs) = .ok (samePairs ps qs) := rfl

/-! ## The parts of what is the same -/

mutual

theorem same_within (a b : Value) (h : a.same b = true) :
    ∀ place ∈ within a b, place.1.same place.2 = true := by
  match a with
  | list xs s p =>
    cases b with
    | list ys t q =>
      simp only [same, Bool.and_eq_true] at h
      rw [within]
      exact same_itemsWithin xs ys h.1
    | _ => cases h
  | map ps =>
    cases b with
    | map qs =>
      rw [same] at h
      rw [within]
      exact same_pairsWithin ps qs h
    | _ => cases h
  | null | bool _ | number _ | color _ | string _ | custom .. =>
    intro place hplace
    cases b <;> cases hplace

theorem same_itemsWithin (xs ys : List Value) (h : sameItems xs ys = true) :
    ∀ place ∈ itemsWithin xs ys, place.1.same place.2 = true := by
  match xs, ys with
  | x :: xs, y :: ys =>
    simp only [sameItems, Bool.and_eq_true] at h
    simp only [itemsWithin, List.forall_mem_cons, List.forall_mem_append]
    exact ⟨h.1, same_within x y h.1, same_itemsWithin xs ys h.2⟩
  | [], [] => exact List.forall_mem_nil _
  | [], _ :: _ => cases h
  | _ :: _, [] => cases h

theorem same_pairsWithin (ps qs : List (Value × Value)) (h : samePairs ps qs = true) :
    ∀ place ∈ pairsWithin ps qs, place.1.same place.2 = true := by
  match ps, qs with
  | (k, v) :: ps, (l, w) :: qs =>
    simp only [samePairs, Bool.and_eq_true] at h
    simp only [pairsWithin, List.forall_mem_cons, List.forall_mem_append]
    exact ⟨h.1.1, h.1.2, ⟨same_within k l h.1.1, same_within v w h.1.2⟩,
      same_pairsWithin ps qs h.2⟩
  | [], [] => exact List.forall_mem_nil _
  | [], _ :: _ => cases h
  | _ :: _, [] => cases h

end

/-! ## Where nothing is forgiven -/

/-- Nothing that stands at the same places inside the two has anything to forgive. -/
def IsStrict (places : List (Value × Value)) : Prop :=
  ∀ place ∈ places, ¬ IsForgiven place.1 place.2

theorem isStrict_cons_iff {a b : Value} {places : List (Value × Value)} :
    IsStrict ((a, b) :: places) ↔ ¬ IsForgiven a b ∧ IsStrict places :=
  List.forall_mem_cons

theorem isStrict_append_iff {places others : List (Value × Value)} :
    IsStrict (places ++ others) ↔ IsStrict places ∧ IsStrict others :=
  List.forall_mem_append

mutual

theorem same_of_matches (a b : Value) (h : Matches a b) (hself : ¬ IsForgiven a b)
    (hinside : IsStrict (within a b)) : a.same b = true := by
  match a with
  | list xs s p =>
    cases h with
    | equal h => exact same_of_equals h hself
    | list h =>
      rw [within] at hinside
      simp only [same, beq_self_eq_true, Bool.and_true]
      exact sameItems_of_matches xs _ h hinside
  | map ps =>
    cases h with
    | equal h => exact same_of_equals h hself
    | map hkeys hvalues =>
      rw [within] at hinside
      rw [same]
      exact samePairs_of_matches ps _ hkeys hvalues hinside
  | null | bool _ | number _ | color _ | string _ | custom .. =>
    cases h with
    | equal h => exact same_of_equals h hself

theorem sameItems_of_matches (xs ys : List Value) (h : List.Forall₂ Matches xs ys)
    (hinside : IsStrict (itemsWithin xs ys)) : sameItems xs ys = true := by
  match xs, ys with
  | [], _ =>
    cases h
    rfl
  | x :: xs, _ =>
    cases h with
    | cons hx hxs =>
      rw [itemsWithin, isStrict_cons_iff, isStrict_append_iff] at hinside
      obtain ⟨hself, hitem, hrest⟩ := hinside
      simp only [sameItems, Bool.and_eq_true]
      exact ⟨same_of_matches x _ hx hself hitem, sameItems_of_matches xs _ hxs hrest⟩

theorem samePairs_of_matches (ps qs : List (Value × Value))
    (hkeys : List.Forall₂ Matches (ps.map Prod.fst) (qs.map Prod.fst))
    (hvalues : List.Forall₂ Matches (ps.map Prod.snd) (qs.map Prod.snd))
    (hinside : IsStrict (pairsWithin ps qs)) : samePairs ps qs = true := by
  match ps, qs with
  | [], [] => rfl
  | [], _ :: _ => cases hkeys
  | _ :: _, [] => cases hkeys
  | (k, v) :: ps, (l, w) :: qs =>
    rw [pairsWithin] at hinside
    simp only [isStrict_cons_iff, isStrict_append_iff] at hinside
    obtain ⟨hk, hv, ⟨hkey, hvalue⟩, hrest⟩ := hinside
    obtain ⟨hkl, hkeys⟩ := List.forall₂_cons.mp hkeys
    obtain ⟨hvw, hvalues⟩ := List.forall₂_cons.mp hvalues
    simp only [samePairs, Bool.and_eq_true]
    exact ⟨⟨same_of_matches k l hkl hk hkey, same_of_matches v w hvw hv hvalue⟩,
      samePairs_of_matches ps qs hkeys hvalues hrest⟩

end

theorem isStrict_of_equals {a b : Value} (h : a.equals b = .ok true) : IsStrict (within a b) := by
  have hstrict (hsame : a.same b = true) : IsStrict (within a b) := by
    intro place hplace
    exact not_isForgiven_of_same (same_within a b hsame place hplace)
  cases a with
  | string _ | number _ =>
    intro place hplace
    cases b <;> cases hplace
  | _ => exact hstrict (Except.ok.inj h)

/-- Values that match are equal exactly if no two parts that stand at the same place inside them
have anything to forgive each other. -/
theorem equals_iff_of_matches {a b : Value} (h : Matches a b) :
    a.equals b = .ok true ↔ IsStrict (within a b) := by
  refine ⟨isStrict_of_equals, fun hstrict => ?_⟩
  cases h with
  | equal h => exact h
  | list h =>
    rw [within] at hstrict
    rw [equals_list, sameItems_of_matches _ _ h hstrict, beq_self_eq_true]
    rfl
  | map hkeys hvalues =>
    rw [within] at hstrict
    rw [equals_map, samePairs_of_matches _ _ hkeys hvalues hstrict]

def border (style : String) (separator : Separator) : Value :=
  .list [.map [(.string "border", .list [.string style, .null] separator false)]] separator false

theorem matches_border {s t : String} (separator other : Separator)
    (h : (string s).equals (string t) = .ok true) :
    Matches (border s separator) (border t other) := by
  have hstyle : Matches (.list [.string s, .null] separator false)
      (.list [.string t, .null] other false) :=
    .list (.cons (.equal h) (.cons (.equal rfl) .nil))
  exact .list (.cons (.map (.cons (.equal rfl) .nil) (.cons hstyle .nil)) .nil)

/-- The separators make no difference to what stands in the lists, and the marks of a string do. -/
theorem equals_iff_of_matches_border :
    Matches (border "solid" .space) (border "solid" .comma) ∧
    (border "solid" .space).equals (border "solid" .comma) = .ok true ∧
    Matches (border "solid" .space) (border "'solid'" .space) ∧
    (border "solid" .space).equals (border "'solid'" .space) ≠ .ok true := by
  have hloose := matches_border .space .comma (s := "solid") (t := "solid") rfl
  have hquoted := matches_border .space .space (s := "solid") (t := "'solid'") rfl
  refine ⟨hloose, ?_, hquoted, ?_⟩
  · apply (equals_iff_of_matches hloose).mpr
    simp [IsStrict, border, within, itemsWithin, pairsWithin, IsForgiven]
  · intro h
    have hstrict := (equals_iff_of_matches hquoted).mp h
    have hforgiven : IsForgiven (.string "solid") (.string "'solid'") := by
      constructor <;> decide
    have hplace : (.string "solid", .string "'solid'") ∈
        within (border "solid" .space) (border "'solid'" .space) := by
      simp [border, within, itemsWithin, pairsWithin]
    exact hstrict _ hplace hforgiven

/-- The marks of an item part two lists whose items are equal. -/
theorem not_equals_quoted :
    evaluateSource "\"a\" == a" [] = .ok (.bool true) ∧
      evaluateSource "(\"a\",) == (a,)" [] = .ok (.bool false) ∧
      ¬ ∀ a b, Matches a b → a.equals b = .ok true := by
  have hitem : Source.readExpr "\"a\" == a" = .ok (.binary .eq (.literal (.string "\"a\""))
      (.literal (.string "a"))) := rfl
  have hlist : Source.readExpr "(\"a\",) == (a,)" = .ok (.binary .eq
      (.list [.literal (.string "\"a\"")] .comma false)
      (.list [.literal (.string "a")] .comma false)) := rfl
  refine ⟨Literal.evaluateSource_eq_ok_iff.mpr ⟨_, [], hitem, rfl⟩,
    Literal.evaluateSource_eq_ok_iff.mpr ⟨_, [], hlist, rfl⟩, ?_⟩
  intro h
  have hmatches : Matches (.list [.string "\"a\""] .comma false)
      (.list [.string "a"] .comma false) := .list (.cons (.equal rfl) .nil)
  have hequal : same _ _ = true := Except.ok.inj (h _ _ hmatches)
  exact absurd hequal (by decide)

end SassData.Value
