import Mathlib.Data.List.Nodup
import SassData.Proofs.Host.ReturnedData
import SassData.Proofs.Quotation.QuotedLiterals
import SassData.Proofs.Value.StructuralEquality

/-!
# Values that come back with their marks

Strings of a style sheet may keep their marks in host data, and then they are quoted already when
the data becomes a value again. Quoting puts a backslash before an apostrophe all the same, also
where there is one, and keys go without their marks in any case: what a key encloses may be quoted
itself and keeps its own marks then. Where neither happens the value is the same as before.
-/

namespace SassData

set_option autoImplicit false

/-! ## Quoting what is quoted -/

namespace Text

theorem singleton_apostrophe : String.singleton '\'' = "'" := rfl

variable {mark : Char} {text : List Char}

theorem escape_eq_self_iff (hm : mark ≠ '\\') : escape [mark] text = text ↔ mark ∉ text := by
  refine ⟨fun h => ?_, escape_of_not_mem⟩
  induction text with
  | nil => exact List.not_mem_nil
  | cons c rest ih =>
    rw [escape_singleton_cons] at h
    split at h
    · next hc => exact absurd (hc.trans (List.cons.inj h).1.symm) hm
    · next hc =>
      rw [List.mem_cons, not_or]
      exact ⟨hc, ih (List.cons.inj h).2⟩

theorem escape_ne_cons (hm : mark ≠ '\\') (rest : List Char) :
    escape [mark] text ≠ mark :: rest := by
  cases text with
  | nil => exact nofun
  | cons c more =>
    rw [escape_singleton_cons]
    split
    · exact fun h => hm (List.cons.inj h).1.symm
    · next hc => exact fun h => hc (List.cons.inj h).1.symm

variable {quoted : String}

theorem toList_of_mark? (h : mark? quoted = some mark) :
    isMark mark = true ∧ quoted.toList = mark :: ((unquote quoted).toList ++ [mark]) := by
  obtain ⟨⟨_, inner⟩, hu, rfl⟩ := Option.map_eq_some_iff.mp h
  obtain ⟨hm, htext⟩ := enclosed_of_unwrap? hu
  refine ⟨hm, ?_⟩
  rw [unquote, payload, hu, String.toList_ofList]
  exact htext

/-- A quoted text is quoted as before unless its mark stands inside. -/
theorem quote_eq_self_iff (h : mark? quoted = some mark) (asked : Char) :
    quote quoted (String.singleton asked) = quoted ↔ mark ∉ (unquote quoted).toList := by
  obtain ⟨hm, htext⟩ := toList_of_mark? h
  have hu := unwrap?_enclosed hm (unquote quoted).toList
  rw [← String.toList_inj, toList_quote, htext, markFor, payload, hu]
  simp only [List.cons.injEq, true_and, List.append_cancel_right_eq]
  exact escape_eq_self_iff (ne_of_isMark hm).1

/-- What a quoted text encloses is put between the same marks as before unless the mark stands
there or it is quoted itself. -/
theorem quote_unquote_eq_iff (h : mark? quoted = some mark) :
    quote (unquote quoted) (String.singleton mark) = quoted ↔
      Host.IsBareText (some mark) (unquote quoted) := by
  obtain ⟨hm, htext⟩ := toList_of_mark? h
  have hslash := (ne_of_isMark hm).1
  rw [← String.toList_inj, toList_quote, htext, markFor, payload, Host.IsBareText, isQuoted]
  cases hu : unwrap? (unquote quoted).toList with
  | none =>
    simp [escape_eq_self_iff hslash]
  | some found =>
    obtain ⟨own, inner⟩ := found
    refine iff_of_false ?_ (by simp)
    rw [(enclosed_of_unwrap? hu).2]
    intro heq
    obtain ⟨hown, hrest⟩ := List.cons.inj heq
    dsimp only at hown hrest
    subst hown
    exact escape_ne_cons hslash _ (List.append_cancel_right hrest)

end Text

/-! ## Values in apostrophes -/

namespace Value

mutual

/-- Null, booleans, numbers without units but for what is not a number, string literals in
apostrophes, comma lists without brackets, and maps with strings in apostrophes for keys, no key
twice. -/
def InApostrophes : Value → Prop
  | null | bool _ => True
  | number n => n.hasUnits = false ∧ ∀ x, n.magnitude = .float x → x.isNan = false
  | string text => Text.mark? text = some '\'' ∧ Source.IsStringLiteral text
  | list items separator bracketed =>
    separator = .comma ∧ bracketed = false ∧ AllInApostrophes items
  | map pairs => PairsInApostrophes pairs ∧ (pairs.map Prod.fst).Nodup
  | color _ | custom .. => False

def AllInApostrophes : List Value → Prop
  | [] => True
  | v :: rest => v.InApostrophes ∧ AllInApostrophes rest

def PairsInApostrophes : List (Value × Value) → Prop
  | [] => True
  | (key, v) :: rest => (∃ text, key = string text ∧ Text.mark? text = some '\'') ∧
      v.InApostrophes ∧ PairsInApostrophes rest

end

mutual

/-- The value with its strings quoted once more, and with keys of what their marks enclose. -/
def requoted : Value → Value
  | string text => string (Text.quote text "'")
  | list items _ _ => list (requotedItems items) .comma false
  | map pairs => map (requotedPairs pairs)
  | v => v

def requotedItems : List Value → List Value
  | [] => []
  | v :: rest => v.requoted :: requotedItems rest

def requotedPairs : List (Value × Value) → List (Value × Value)
  | [] => []
  | (key, v) :: rest =>
    (string (Text.quote (Host.keyText key) "'"), v.requoted) :: requotedPairs rest

end

mutual

/-- No apostrophe stands between the marks of a string or of a key, and no key encloses a quoted
text. -/
def IsPreserved : Value → Prop
  | string text => '\'' ∉ (Text.unquote text).toList
  | list items _ _ => AllPreserved items
  | map pairs => PairsPreserved pairs
  | _ => True

def AllPreserved : List Value → Prop
  | [] => True
  | v :: rest => v.IsPreserved ∧ AllPreserved rest

def PairsPreserved : List (Value × Value) → Prop
  | [] => True
  | (key, v) :: rest =>
    Host.IsBareText (some '\'') (Host.keyText key) ∧ v.IsPreserved ∧ PairsPreserved rest

end

theorem same_number {n : Number} (hn : ∀ x, n.magnitude = .float x → x.isNan = false) :
    (number n).same (number n) = true := by
  have hm : n.magnitude.same n.magnitude = true := by
    refine (Number.Magnitude.same_iff _ _).mpr ⟨rfl, ?_⟩
    cases h : n.magnitude with
    | int k => exact nofun
    | float x =>
      cases x with
      | nan s i => cases hn _ h
      | infinity s => exact nofun
      | finite s u hu => exact nofun
  simp [same, hm]

mutual

/-- Quoting once more leaves the value the same exactly where it has nothing to escape. -/
theorem same_requoted_iff (v : Value) (hv : v.InApostrophes) :
    v.requoted.same v = true ↔ v.IsPreserved := by
  match v with
  | null => exact iff_of_true rfl trivial
  | bool b => exact iff_of_true (beq_self_eq_true b) trivial
  | number n => exact iff_of_true (same_number hv.2) trivial
  | string text =>
    rw [requoted, same, beq_iff_eq, IsPreserved, ← Text.singleton_apostrophe]
    exact Text.quote_eq_self_iff hv.1 '\''
  | list items separator bracketed =>
    obtain ⟨-, rfl, hitems⟩ := hv
    rw [requoted, same, IsPreserved, ← sameItems_requoted_iff items hitems]
    simp
  | map pairs =>
    rw [requoted, same, IsPreserved]
    exact samePairs_requoted_iff pairs hv.1

theorem sameItems_requoted_iff (items : List Value) (hitems : AllInApostrophes items) :
    sameItems (requotedItems items) items = true ↔ AllPreserved items := by
  match items with
  | [] => exact iff_of_true rfl trivial
  | v :: rest =>
    rw [requotedItems, sameItems, Bool.and_eq_true, same_requoted_iff v hitems.1,
      sameItems_requoted_iff rest hitems.2, AllPreserved]

theorem samePairs_requoted_iff (pairs : List (Value × Value)) (hpairs : PairsInApostrophes pairs) :
    samePairs (requotedPairs pairs) pairs = true ↔ PairsPreserved pairs := by
  match pairs with
  | [] => exact iff_of_true rfl trivial
  | (key, v) :: rest =>
    obtain ⟨⟨text, rfl, hmark⟩, hv, hrest⟩ := hpairs
    have hkey : Text.quote (Text.unquote text) "'" = text ↔
        Host.IsBareText (some '\'') (Text.unquote text) := by
      rw [← Text.singleton_apostrophe]
      exact Text.quote_unquote_eq_iff hmark
    rw [requotedPairs, samePairs, Host.keyText, same, Bool.and_eq_true, Bool.and_eq_true,
      beq_iff_eq, hkey, same_requoted_iff v hv, samePairs_requoted_iff rest hrest, PairsPreserved,
      Host.keyText, and_assoc]

end

end Value

/-! ## There and back -/

namespace Host

open Value (InApostrophes AllInApostrophes PairsInApostrophes requotedItems requotedPairs)

def FromStyle.preserving : FromStyle := ⟨false, false, true⟩

theorem nodup_keyText {pairs : List (Value × Value)} (hpairs : PairsInApostrophes pairs)
    (hn : (pairs.map Prod.fst).Nodup) :
    ((ofPairs .preserving pairs).map Prod.fst).Nodup := by
  have hmarked : ∀ key ∈ pairs.map Prod.fst,
      ∃ text, key = .string text ∧ Text.mark? text = some '\'' := by
    clear hn
    induction pairs with
    | nil => exact nofun
    | cons pair rest ih => exact List.forall_mem_cons.mpr ⟨hpairs.1, ih hpairs.2.2⟩
  have hnames : (ofPairs .preserving pairs).map Prod.fst = (pairs.map Prod.fst).map keyText := by
    clear hn hmarked hpairs
    induction pairs with
    | nil => rfl
    | cons pair rest ih => rw [ofPairs, List.map_cons, ih, List.map_cons, List.map_cons]
  rw [hnames]
  refine hn.map_on fun key hk other ho heq => ?_
  obtain ⟨text, rfl, htext⟩ := hmarked key hk
  obtain ⟨more, rfl, hmore⟩ := hmarked other ho
  rw [keyText, keyText] at heq
  have hsame : text.toList = more.toList := by
    rw [(Text.toList_of_mark? htext).2, (Text.toList_of_mark? hmore).2, heq]
  rw [String.toList_inj.mp hsame]

mutual

theorem prospect_requoted (handed : Host → Plan Host) (v : Value) (hv : v.InApostrophes) :
    (planWith .standard handed (ofValue .preserving v)).prospect = .value (.value v.requoted) := by
  match v with
  | .null => rfl
  | .bool b => rfl
  | .number n =>
    obtain ⟨hunits, -⟩ := hv
    have hplain : n = .ofMagnitude n.magnitude := by
      obtain ⟨m, above, below⟩ := n
      cases above with
      | cons => cases hunits
      | nil =>
        cases below with
        | cons => cases hunits
        | nil => rfl
    have hhost : ofValue .preserving (.number n) = .number n.magnitude := by
      rw [ofValue, hunits]
      rfl
    rw [hhost, planWith, ← hplain]
    rfl
  | .string s => rfl
  | .list items _ _ => exact prospect_listPlan (prospects_requotedItems handed items hv.2.2)
  | .map pairs =>
    obtain ⟨vs, hvs, hzip⟩ := prospects_requotedPairs handed pairs hv.1
    rw [ofValue, dictOfNamed_of_nodup (nodup_keyText hv.1 hv.2), planWith, prospect_mapPlan hvs,
      hzip, Value.requoted]

theorem prospects_requotedItems (handed : Host → Plan Host) (items : List Value)
    (hitems : AllInApostrophes items) :
    Plan.prospects (planItems .standard handed (ofValues .preserving items)) =
      .value ((requotedItems items).map Host.value) := by
  match items with
  | [] => rfl
  | v :: rest =>
    exact prospects_cons (prospect_requoted handed v hitems.1)
      (prospects_requotedItems handed rest hitems.2)

theorem prospects_requotedPairs (handed : Host → Plan Host) (pairs : List (Value × Value))
    (hpairs : PairsInApostrophes pairs) :
    ∃ vs, Plan.prospects (planEntries .standard handed
        ((ofPairs .preserving pairs).map fun (name, item) => (.text name, item))) =
          .value (vs.map Host.value) ∧
      (((ofPairs .preserving pairs).map fun (name, item) => (Host.text name, item)).map
        fun (key, _) => keyValue .standard key.keyName).zip vs = requotedPairs pairs := by
  match pairs with
  | [] => exact ⟨[], rfl, rfl⟩
  | (key, v) :: rest =>
    obtain ⟨vs, hvs, hzip⟩ := prospects_requotedPairs handed rest hpairs.2.2
    refine ⟨v.requoted :: vs, prospects_cons (prospect_requoted handed v hpairs.2.1) hvs, ?_⟩
    rw [ofPairs, List.map_cons, List.map_cons, List.zip_cons_cons, hzip, requotedPairs]
    rfl

end

/-- A value becomes host data in which strings keep their marks, and the data becomes the other
value at once. -/
def ReturnsAs (v w : Value) : Prop :=
  ∃ h, resolve .preserving (.value v) = .ok h ∧
    ∀ s : Future.Store Host, s.launch (toStyle .standard h) = (s, .now (.value w))

theorem returnsAs_requoted {v : Value} (hv : v.InApostrophes) : ReturnsAs v v.requoted :=
  ⟨ofValue .preserving v, rfl, launch_of_prospect (prospect_requoted (planTo .standard 1) v hv)⟩

theorem returnsAs_unique {v w w' : Value} (hw : ReturnsAs v w) (hw' : ReturnsAs v w') : w = w' := by
  obtain ⟨h, hresolve, hlaunch⟩ := hw
  obtain ⟨h', hresolve', hlaunch'⟩ := hw'
  rw [hresolve] at hresolve'
  cases hresolve'
  have hsame := (hlaunch Future.Store.empty).symm.trans (hlaunch' Future.Store.empty)
  cases hsame
  rfl

/-- A value returns with its strings quoted once more. That is the same value exactly if there is
no apostrophe to escape and no key that encloses a quoted text. -/
theorem returnsAs_requoted_iff (v : Value) (hv : v.InApostrophes) :
    ReturnsAs v v.requoted ∧ (v.requoted.same v = true ↔ v.IsPreserved) :=
  ⟨returnsAs_requoted hv, Value.same_requoted_iff v hv⟩

def quotedInside : Value :=
  .map [(.string "'a'", .list [.string "'it\\'s'", .number (.ofInt 1)] .comma false),
    (.string "'\"b\"'", .null)]

theorem inApostrophes_quotedInside : quotedInside.InApostrophes := by
  refine ⟨⟨⟨_, rfl, by decide⟩, ⟨rfl, rfl, ⟨by decide, ?_⟩, ⟨rfl, nofun⟩, trivial⟩,
    ⟨_, rfl, by decide⟩, trivial, trivial⟩, by simp⟩
  exact ⟨'\'', _, rfl, rfl, rfl⟩

theorem returnsAs_requoted_quotedInside :
    ReturnsAs quotedInside (.map [(.string "'a'",
        .list [.string "'it\\\\'s'", .number (.ofInt 1)] .comma false),
        (.string "\"b\"", .null)]) ∧
      quotedInside.requoted.same quotedInside = false := by
  obtain ⟨hreturns, hsame⟩ := returnsAs_requoted_iff quotedInside inApostrophes_quotedInside
  refine ⟨hreturns, Bool.eq_false_iff.mpr fun h => ?_⟩
  have hbare : '\'' ∉ (Text.unquote "'it\\'s'").toList := (hsame.mp h).2.1.1
  exact absurd hbare (by decide)

/-- An escaped apostrophe is escaped again. -/
theorem not_returnsAs_same :
    ¬ ∀ v : Value, v.InApostrophes → ∃ w, ReturnsAs v w ∧ w.same v = true := by
  intro hall
  have hv : (Value.string "'it\\'s'").InApostrophes :=
    ⟨by decide, '\'', _, rfl, rfl, rfl⟩
  obtain ⟨w, hw, hsame⟩ := hall _ hv
  rw [returnsAs_unique hw (returnsAs_requoted hv), Value.same_requoted_iff _ hv] at hsame
  have hbare : '\'' ∉ (Text.unquote "'it\\'s'").toList := hsame
  exact absurd hbare (by decide)

end Host

end SassData
