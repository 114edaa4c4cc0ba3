import SassData.Proofs.Host.DataPaths

/-!
# The entries of a map

A map with strings for keys becomes a dictionary of what the keys enclose. Both find what comes last
under a key, whatever marks it is written with, so looking a key up and taking host data from what
is found can be done in either order.
-/

namespace SassData.Host

set_option autoImplicit false

variable {options : FromStyle} {pairs : List (Value × Value)} {names : List String}

theorem ofPairs_eq_map (pairs : List (Value × Value)) :
    ofPairs options pairs = pairs.map fun pair => (keyText pair.1, ofValue options pair.2) := by
  induction pairs with
  | nil => rfl
  | cons pair rest ih => rw [ofPairs, ih, List.map_cons]

def entriesOf (options : FromStyle) (pairs : List (Value × Value)) : List (Host × Host) :=
  (collapsed (ofPairs options pairs)).map fun (name, item) => (.text name, item)

theorem ofValue_map (pairs : List (Value × Value)) :
    ofValue options (.map pairs) = .dict (entriesOf options pairs) := by
  rw [ofValue, dictOfNamed, foldl_put_eq_collapsed]
  rfl

theorem map_fst_entriesOf (hkeys : pairs.map Prod.fst = names.map .string) :
    (entriesOf options pairs).map Prod.fst = (names.map Text.unquote).eraseDups.map .text := by
  have hnames : (ofPairs options pairs).map Prod.fst = names.map Text.unquote := by
    calc
      (ofPairs options pairs).map Prod.fst = (pairs.map Prod.fst).map keyText := by
        rw [ofPairs_eq_map, List.map_map, List.map_map]
        rfl
      _ = names.map Text.unquote := by
        rw [hkeys, List.map_map]
        rfl
  rw [entriesOf, collapsed, hnames, List.map_map, List.map_map]
  rfl

/-! ## Looking up -/

theorem itemUnder?_text (entries : List (String × Host)) (name : String) :
    itemUnder? (entries.map fun (name, item) => (.text name, item)) (.text name) =
      entries.lookup name := by
  induction entries with
  | nil => rfl
  | cons entry rest ih =>
    obtain ⟨key, item⟩ := entry
    rw [itemUnder?] at ih ⊢
    rw [List.map_cons, List.find?_cons, List.lookup_cons, same_text]
    by_cases h : key = name
    · rw [h, beq_self_eq_true]
      rfl
    · rw [beq_false_of_ne h, beq_false_of_ne (Ne.symm h)]
      exact ih

theorem lookup_map_self {names : List String} (f : String → Host) (name : String) :
    (names.map fun k => (k, f k)).lookup name = if name ∈ names then some (f name) else none := by
  induction names with
  | nil => rfl
  | cons k rest ih =>
    rw [List.map_cons, List.lookup_cons]
    by_cases h : name = k
    · simp [h]
    · rw [beq_false_of_ne h, ih]
      simp [h]

theorem lookup_collapsed (entries : List (String × Host)) (name : String) :
    (collapsed entries).lookup name = entries.reverse.lookup name := by
  rw [collapsed, lookup_map_self]
  split
  · next hname =>
    have hsome : entries.reverse.lookup name ≠ none := by
      intro hnone
      obtain ⟨entry, he, rfl⟩ := List.mem_map.mp (List.mem_eraseDups.mp hname)
      have hne := List.lookup_eq_none_iff.mp hnone entry (List.mem_reverse.mpr he)
      simp at hne
    obtain ⟨item, hitem⟩ := Option.ne_none_iff_exists'.mp hsome
    rw [hitem, Option.getD_some]
  · next hname =>
    symm
    rw [List.lookup_eq_none_iff]
    intro entry he
    rw [bne_iff_ne]
    rintro rfl
    exact hname (List.mem_eraseDups.mpr (List.mem_map_of_mem (List.mem_reverse.mp he)))

/-- Among strings, a key is the one that encloses the same text. -/
theorem lookup_keyText (hkeys : ∀ pair ∈ pairs, ∃ s, pair.1 = .string s) (name : String) :
    (pairs.map fun pair => (keyText pair.1, ofValue options pair.2)).lookup (Text.unquote name) =
      (pairs.find? fun pair => Value.sameKey pair.1 (.string name)).map
        fun pair => ofValue options pair.2 := by
  induction pairs with
  | nil => rfl
  | cons pair rest ih =>
    obtain ⟨⟨s, hs⟩, hrest⟩ := List.forall_mem_cons.mp hkeys
    obtain ⟨key, v⟩ := pair
    subst hs
    rw [List.map_cons, List.lookup_cons, List.find?_cons, keyText, Value.sameKey,
      BEq.comm (a := Text.unquote name)]
    cases Text.unquote s == Text.unquote name with
    | true => rfl
    | false => exact ih hrest

theorem itemUnder?_entriesOf (hkeys : pairs.map Prod.fst = names.map .string) (name : String) :
    itemUnder? (entriesOf options pairs) (.text (Text.unquote name)) =
      (Value.lookup? pairs (.string name)).map (ofValue options) := by
  have hstrings : ∀ pair ∈ pairs.reverse, ∃ s, pair.1 = .string s := by
    intro pair hpair
    have hmem : pair.1 ∈ names.map .string := by
      rw [← hkeys]
      exact List.mem_map_of_mem (List.mem_reverse.mp hpair)
    obtain ⟨s, -, hs⟩ := List.mem_map.mp hmem
    exact ⟨s, hs.symm⟩
  rw [entriesOf, itemUnder?_text, lookup_collapsed, ofPairs_eq_map, ← List.map_reverse,
    lookup_keyText hstrings, Value.lookup?, Option.map_map]
  rfl

theorem exists_lookup? {key : Value} (h : key ∈ pairs.map Prod.fst)
    (hkey : Value.sameKey key key = true) : ∃ v, Value.lookup? pairs key = some v := by
  obtain ⟨pair, hpair, rfl⟩ := List.mem_map.mp h
  have hfound : (pairs.reverse.find? fun other => Value.sameKey other.1 pair.1).isSome = true :=
    List.find?_isSome.mpr ⟨pair, List.mem_reverse.mpr hpair, hkey⟩
  obtain ⟨found, hfind⟩ := Option.isSome_iff_exists.mp hfound
  exact ⟨found.2, by rw [Value.lookup?, hfind, Option.map_some]⟩

/-- The dictionary of a map has the texts of its keys, each at its first place, and under each what
the map has. -/
theorem itemUnder?_eq_lookup? (options : FromStyle)
    (hkeys : pairs.map Prod.fst = names.map .string) :
    ∃ entries, resolve options (.value (.map pairs)) = .ok (.dict entries) ∧
      entries.map Prod.fst = (names.map Text.unquote).eraseDups.map .text ∧
      ∀ name ∈ names, ∃ v h, Value.lookup? pairs (.string name) = some v ∧
        resolve options (.value v) = .ok h ∧
        itemUnder? entries (.text (Text.unquote name)) = some h := by
  refine ⟨entriesOf options pairs, ?_, map_fst_entriesOf hkeys, ?_⟩
  · rw [resolve, ofValue_map]
  · intro name hname
    have hmem : Value.string name ∈ pairs.map Prod.fst := hkeys ▸ List.mem_map_of_mem hname
    obtain ⟨v, hv⟩ := exists_lookup? hmem (beq_self_eq_true _)
    refine ⟨v, ofValue options v, hv, rfl, ?_⟩
    rw [itemUnder?_entriesOf hkeys, hv, Option.map_some]

/-- A map with one key in two spellings, whose later value becomes nothing. -/
def respelled : List (Value × Value) :=
  [(.string "\"a\"", .bool true), (.string "b", .bool false), (.string "a", .null)]

theorem itemUnder?_eq_lookup?_respelled :
    respelled.map Prod.fst = ["\"a\"", "b", "a"].map .string ∧
      ∃ entries, resolve ⟨false, false, false⟩ (.value (.map respelled)) = .ok (.dict entries) ∧
        entries.map Prod.fst = ["a", "b"].map .text ∧
        Value.lookup? respelled (.string "\"a\"") = some .null ∧
        itemUnder? entries (.text "a") = some .null := by
  have hkeys : respelled.map Prod.fst = ["\"a\"", "b", "a"].map .string := rfl
  have hnames : (["\"a\"", "b", "a"].map Text.unquote).eraseDups = ["a", "b"] := by decide +kernel
  have htext : Text.unquote "\"a\"" = "a" := by decide +kernel
  have hlast : Value.lookup? respelled (.string "\"a\"") = some .null := rfl
  obtain ⟨entries, hdict, hfirst, hfind⟩ := itemUnder?_eq_lookup? ⟨false, false, false⟩ hkeys
  obtain ⟨v, h, hv, hh, hentry⟩ := hfind "\"a\"" (by simp)
  obtain rfl : v = .null := Option.some.inj (hv.symm.trans hlast)
  cases hh
  rw [hnames] at hfirst
  rw [htext] at hentry
  exact ⟨hkeys, entries, hdict, hfirst, hlast, hentry⟩

end SassData.Host
