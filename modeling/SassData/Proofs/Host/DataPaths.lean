import SassData.Module.Require
import SassData.Proofs.Evaluation.EvaluationSteps
import SassData.Proofs.Host.ReturnedData
import SassData.Proofs.Host.UnfoldedData
import SassData.Proofs.Value.MapKeys

/-!
# Two ways into data

A path of keys leads into nested dictionaries, and the strings of the keys lead into the maps they
become. What is found is the same: to convert what the path leads to, or to convert all and follow
the strings through the maps. The keys are in marks in the maps and are met without them, and where
no key comes twice the last pair is the only one.
-/

namespace SassData

set_option autoImplicit false

namespace Host

/-! ## Paths -/

/-- Every key is a text without marks and apostrophes, and none comes twice. -/
structure HasBareKeys (entries : List (Host × Host)) : Prop where
  bare : ∀ entry ∈ entries, ∃ name, entry.1 = .text name ∧ IsBareText (some '\'') name
  distinct : (entries.map fun entry => entry.1.keySpelling).Nodup

/-- A path of keys leads from data to a part of it, through dictionaries with bare keys. -/
inductive LeadsTo : Host → List String → Host → Prop
  | here (h : Host) : LeadsTo h [] h
  | through {entries : List (Host × Host)} {name : String} {h part : Host} {path : List String}
      (hkeys : HasBareKeys entries) (hentry : (.text name, h) ∈ entries)
      (hpath : LeadsTo h path part) : LeadsTo (.dict entries) (name :: path) part

variable {entries : List (Host × Host)} {name : String} {h part data : Host} {path : List String}

theorem same_text (a b : String) : (Host.text a).same (.text b) = (a == b) := by
  rw [same]

theorem HasBareKeys.filter_eq (hkeys : HasBareKeys entries) (hentry : (.text name, h) ∈ entries) :
    entries.filter (fun entry => entry.1.same (.text name)) = [(.text name, h)] := by
  have hapart := List.pairwise_map.mp hkeys.distinct
  refine Value.filter_eq_singleton (hapart.imp_of_mem ?_) hentry ?_
  · rintro entry other he ho hne ⟨hsame, hother⟩
    obtain ⟨first, hfirst, -⟩ := hkeys.bare entry he
    obtain ⟨second, hsecond, -⟩ := hkeys.bare other ho
    rw [hfirst, same_text, beq_iff_eq] at hsame
    rw [hsecond, same_text, beq_iff_eq] at hother
    rw [hfirst, hsecond, hsame, hother] at hne
    exact hne rfl
  · rw [same_text, beq_iff_eq]

theorem followFrom_of_leadsTo (hpath : LeadsTo data path part) (whole : List String) :
    followFrom whole data (path.map .text) = .ok part := by
  induction hpath with
  | here h => rfl
  | @through entries name h part path hkeys hentry _ ih =>
    have hfind : itemUnder? entries (.text name) = some h := by
      rw [itemUnder?, ← List.head?_filter, hkeys.filter_eq hentry]
      rfl
    have hstep : (Host.dict entries).step (.text name) = .ok (.ok h) := by
      simp [step, stepInDict, isHashable, hfind]
    rw [List.map_cons, followFrom, hstep]
    exact ih

/-! ## Values of data -/

variable {options : ToStyle} {q : Option Char}

/-- Data has a value at once. -/
def Becomes (options : ToStyle) (h : Host) (v : Value) : Prop :=
  (stylePlan options h).prospect = .value (.value v)

theorem exists_becomes_of_converts (hh : Converts options h)
    (hfutures : ∀ place, ¬ Shows options h place) : ∃ v, Becomes options h v := by
  rcases ready_of_converts hh with ⟨⟨place, hs⟩, -⟩ | ⟨-, hv⟩
  · exact absurd hs (hfutures place)
  · exact hv

theorem exists_values {items : List Host} (hi : ∀ item ∈ items, ∃ v, Becomes options item v) :
    ∃ vs, List.Forall₂ (Becomes options) items vs ∧
      Plan.prospects (items.map (stylePlan options)) = .value (vs.map value) := by
  induction items with
  | nil => exact ⟨[], .nil, rfl⟩
  | cons item rest ih =>
    obtain ⟨⟨v, hv⟩, hrest⟩ := List.forall_mem_cons.mp hi
    obtain ⟨vs, hvs, hprospects⟩ := ih hrest
    exact ⟨v :: vs, .cons hv hvs, prospects_cons hv hprospects⟩

theorem exists_pairs (hi : ∀ entry ∈ entries, ∃ v, Becomes options entry.2 v) :
    ∃ pairs, Becomes options (.dict entries) (.map pairs) ∧
      List.Forall₂ (fun entry pair => pair.1 = keyValue options entry.1.keyName ∧
        Becomes options entry.2 pair.2) entries pairs := by
  have hparts : ∀ item ∈ entries.map Prod.snd, ∃ v, Becomes options item v := by
    intro item hm
    obtain ⟨entry, he, rfl⟩ := List.mem_map.mp hm
    exact hi entry he
  obtain ⟨vs, hvs, hprospects⟩ := exists_values hparts
  refine ⟨(entries.map fun entry => keyValue options entry.1.keyName).zip vs, ?_, ?_⟩
  · have hp : (Host.dict entries).parts? = some (entries.map Prod.snd) := rfl
    rw [Becomes, stylePlan_of_parts hp, Plan.prospect, hprospects]
    dsimp only
    rw [map_styleValue]
    rfl
  · clear hparts hprospects hi
    induction entries generalizing vs with
    | nil => exact .nil
    | cons entry rest ih =>
      obtain _ | ⟨hv, hrest⟩ := hvs
      exact .cons ⟨rfl, hv⟩ (ih _ hrest)

theorem becomes_unique {v w : Value} (hv : Becomes options h v) (hw : Becomes options h w) :
    v = w := by
  rw [Becomes, hv] at hw
  cases hw
  rfl

/-! ## Following strings -/

def IsApostrophe (q : Option Char) : Prop := q = some '\'' ∨ q = none

theorem isMark_of_isApostrophe (hq : IsApostrophe q) :
    ∀ mark, q = some mark → Text.isMark mark := by
  rintro mark rfl
  rcases hq with hq | hq
  · cases hq
    rfl
  · cases hq

theorem sameKey_keyValue (hq : IsApostrophe q) (hname : IsBareText (some '\'') name)
    (spelled : String) :
    Value.sameKey (keyValue (.delimited q) name) (.string spelled) =
      (name == Text.unquote spelled) := by
  have hdelimiter : some (q.getD '\'') = some '\'' := by
    rcases hq with rfl | rfl <;> rfl
  have htext := keyText_keyValue (isMark_of_isApostrophe hq) name
  rw [hdelimiter, Text.returned_eq_self hname.1 hname.2] at htext
  exact congrArg (· == Text.unquote spelled) htext

/-- A string finds in the map of a dictionary what its key finds in the dictionary. -/
theorem lookup?_of_entry (hq : IsApostrophe q) (hkeys : HasBareKeys entries)
    (hentry : (.text name, h) ∈ entries) {pairs : List (Value × Value)}
    (hpairs : List.Forall₂ (fun entry pair => pair.1 = keyValue (.delimited q) entry.1.keyName ∧
      Becomes (.delimited q) entry.2 pair.2) entries pairs)
    {spelled : String} (hspelled : Text.unquote spelled = name) :
    ∃ v, Value.lookup? pairs (.string spelled) = some v ∧ Becomes (.delimited q) h v := by
  have hbare := (List.forall₂_and_left _ _).mpr ⟨hkeys.bare, hpairs⟩
  have hfilter := List.rel_filter (p := fun entry => entry.1.same (.text name))
    (q := fun pair => Value.sameKey pair.1 (.string spelled)) ?_ hbare
  · rw [hkeys.filter_eq hentry] at hfilter
    obtain ⟨pair, rest, ⟨-, -, hv⟩, hnone, hone⟩ := List.forall₂_cons_left_iff.mp hfilter
    rw [List.forall₂_nil_left_iff.mp hnone] at hone
    refine ⟨pair.2, ?_, hv⟩
    rw [Value.lookup?_eq, hone]
    rfl
  · rintro entry pair ⟨⟨key, hkey, hb⟩, hpair, -⟩
    dsimp only
    rw [hpair, hkey, same_text, ← hspelled]
    exact iff_of_eq (congrArg (· = true) (sameKey_keyValue hq hb spelled).symm)

theorem converts_entries (hh : Converts options (.dict entries))
    (hfutures : ∀ place, ¬ Shows options (.dict entries) place) :
    ∀ entry ∈ entries, Converts options entry.2 ∧ (∀ place, ¬ Shows options entry.2 place) := by
  have hp : (Host.dict entries).parts? = some (entries.map Prod.snd) := rfl
  intro entry he
  have hitem := List.mem_map_of_mem (f := Prod.snd) he
  refine ⟨converts_of_parts hh hp _ hitem, fun place hs => hfutures place ?_⟩
  exact (shows_iff_of_parts hp).mpr ⟨entry.2, hitem, hs⟩

/-- Strings that spell a path find in the value of data the value of what the path leads to. -/
theorem follow_of_leadsTo (hq : IsApostrophe q) (hpath : LeadsTo data path part)
    (hh : Converts (.delimited q) data) (hfutures : ∀ place, ¬ Shows (.delimited q) data place)
    {v : Value} (hv : Becomes (.delimited q) data v) :
    ∃ w, Becomes (.delimited q) part w ∧ ∀ spelled : List String,
      spelled.map Text.unquote = path → Builtin.follow v (spelled.map .string) = w := by
  induction hpath generalizing v with
  | here h =>
    refine ⟨v, hv, fun spelled hspelled => ?_⟩
    rw [List.map_eq_nil_iff.mp hspelled]
    simp only [List.map_nil, Builtin.follow]
  | @through entries name h part path hkeys hentry _ ih =>
    have hparts := converts_entries hh hfutures
    have hbecomes (entry : Host × Host) (he : entry ∈ entries) :
        ∃ u, Becomes (.delimited q) entry.2 u :=
      exists_becomes_of_converts (hparts entry he).1 (hparts entry he).2
    obtain ⟨u, hu⟩ := hbecomes _ hentry
    obtain ⟨w, hw, hfollow⟩ := ih (hparts _ hentry).1 (hparts _ hentry).2 hu
    obtain ⟨pairs, hmap, hpairs⟩ := exists_pairs hbecomes
    rw [becomes_unique hv hmap]
    refine ⟨w, hw, fun spelled hspelled => ?_⟩
    obtain ⟨first, rest, rfl, hfirst, hrest⟩ := List.map_eq_cons_iff.mp hspelled
    obtain ⟨u', hlookup, hu'⟩ := lookup?_of_entry hq hkeys hentry hpairs hfirst
    rw [becomes_unique hu' hu] at hlookup
    rw [List.map_cons, Builtin.follow, hlookup]
    exact hfollow rest hrest

theorem contains_of_shows (hc : options.callables = .leave) {place : Nat}
    (hs : Shows options h place) : Contains h (.future place) := by
  induction hs with
  | future place => exact .self _
  | part hp hi _ ih => exact .part hp hi ih
  | called hd =>
    rw [hc] at hd
    cases hd

theorem isData_of_parts {h : Host} {items : List Host} (hp : h.parts? = some items)
    (hd : h.IsData) : ∀ item ∈ items, item.IsData := by
  cases h with
  | list | tuple =>
    cases hp
    induction items with
    | nil => exact fun _ hi => absurd hi List.not_mem_nil
    | cons item rest ih => exact List.forall_mem_cons.mpr ⟨hd.1, ih hd.2⟩
  | dict entries =>
    cases hp
    induction entries with
    | nil => exact fun _ hi => absurd hi List.not_mem_nil
    | cons entry rest ih => exact List.forall_mem_cons.mpr ⟨hd.2.1, ih hd.2.2⟩
  | record => cases hd
  | _ => cases hp

theorem isData_of_contains {h other : Host} (hc : Contains h other) (hd : h.IsData) :
    other.IsData := by
  induction hc with
  | self h => exact hd
  | part hp hi _ ih => exact ih (isData_of_parts hp hd _ hi)

end Host

/-! ## Asking for data -/

theorem Evaluation.call_mapGet {scope : Scope} (default : Expr → Traced Value)
    (hscope : scope.functions.find? "map-get" = Builtin.registry.find? "map-get")
    (pairs : List (Value × Value)) (key : Value) (keys : List Value) (trace : List Invocation) :
    call scope default "map-get" (.map pairs :: key :: keys) [] trace =
      .ok (Builtin.follow (.map pairs) (key :: keys),
        ⟨"map-get", [.map pairs, key, .list keys .comma false]⟩ :: trace) := by
  rw [call, hscope]
  rfl

namespace Module

open Host

theorem isNull_of_items {v : Value} {spelled : List String} (hs : spelled ≠ [])
    (hv : v.items = spelled.map .string) : v.isNull = false := by
  cases v with
  | null =>
    obtain ⟨first, rest, rfl⟩ := List.exists_cons_of_ne_nil hs
    cases hv
  | _ => rfl

theorem ofValues_strings (spelled : List String) :
    ofValues plainHost (spelled.map .string) = (spelled.map Text.unquote).map .text := by
  induction spelled with
  | nil => rfl
  | cons first rest ih =>
    rw [List.map_cons, ofValues, ih]
    rfl

theorem require_of_follow {load : Loader} {name : String} {properties parse resolve quotes : Value}
    {delimiter : String} {entries : List (Host × Host)} {part : Host} {w : Value}
    (hload : load (Text.unquote name) = .ok (.dict entries)) (hparse : parse.isTruthy = false)
    (hresolve : policyOf resolve = .leave) (hquotes : delimiterOf quotes = .ok delimiter)
    (hpart : (Host.dict entries).follow (pathOf properties) = .ok part)
    (hw : Becomes ⟨false, .leave, delimiter⟩ part w) (store : Future.Store Host) :
    (require store load).2 [.string name, properties, parse, resolve, quotes] =
      .ok (.now (.value w)) := by
  have hconvert : convert (pathOf properties) ⟨false, .leave, delimiter⟩ (.dict entries) =
      stylePlan ⟨false, .leave, delimiter⟩ part := by
    rw [convert, hpart]
  have hjob : job load (.string name) properties parse resolve quotes =
      .ok (toStyle ⟨false, .leave, delimiter⟩ part) := by
    rw [toStyle, ← hconvert, job, hquotes, hresolve, hparse]
    refine Outcome.bind_eq_ok_iff.mpr ⟨name, rfl, ?_⟩
    refine Outcome.bind_eq_ok_iff.mpr ⟨delimiter, rfl, ?_⟩
    exact Outcome.bind_eq_ok_iff.mpr ⟨_, hload, rfl⟩
  change (do replyOfJob store (← job load (.string name) properties parse resolve quotes)) = _
  rw [hjob]
  change replyOfJob store (toStyle ⟨false, .leave, delimiter⟩ part) = _
  rw [replyOfJob, launch_of_prospect hw]

variable {q : Option Char} {data part : Host} {path : List String}

/-- What is converted and then looked up by strings is what is looked up by keys and then converted,
and what a style sheet gets that asks for the part with the strings. -/
theorem call_mapGet_eq_require (hq : IsApostrophe q) (hpath : path ≠ [])
    (hleads : LeadsTo data path part) (hfutures : ∀ place, ¬ Contains data (.future place))
    (hfractions : ∀ num den, Contains data (.fraction num den) →
      ∃ m, Number.Magnitude.quotient (.int num) (.int den) = .ok m) :
    ∃ v w : Value, data.follow (path.map .text) = .ok part ∧
      (∀ store : Future.Store Host,
        store.launch (toStyle (.delimited q) data) = (store, .now (.value v)) ∧
        store.launch (toStyle (.delimited q) part) = (store, .now (.value w))) ∧
      ∀ spelled : List String, spelled.map Text.unquote = path →
        (∀ (scope : Scope) (default : Expr → Traced Value) (trace : List Invocation),
          scope.functions.find? "map-get" = Builtin.registry.find? "map-get" →
          ∃ after, Evaluation.call scope default "map-get" (v :: spelled.map .string) [] trace =
            .ok (w, after)) ∧
        ∀ (store : Future.Store Host) (load : Loader) (name : String)
          (properties parse resolve quotes : Value),
          load (Text.unquote name) = .ok data → properties.items = spelled.map .string →
          parse.isTruthy = false → policyOf resolve = .leave →
          delimiterOf quotes = .ok (Text.delimiterText q) →
          (require store load).2 [.string name, properties, parse, resolve, quotes] =
            .ok (.now (.value w)) := by
  have hh : Converts (.delimited q) data := converts_of_leave rfl rfl data hfractions
  have hshows (place : Nat) (hs : Shows (.delimited q) data place) : False :=
    hfutures place (contains_of_shows rfl hs)
  have hfollow : data.follow (path.map .text) = .ok part := followFrom_of_leadsTo hleads _
  obtain ⟨v, hv⟩ := exists_becomes_of_converts hh hshows
  obtain ⟨w, hw, hget⟩ := follow_of_leadsTo hq hleads hh hshows hv
  refine ⟨v, w, hfollow, fun store => ⟨launch_of_prospect hv store, launch_of_prospect hw store⟩,
    fun spelled hspelled => ?_⟩
  have hspelled' : spelled ≠ [] := by
    rintro rfl
    exact hpath hspelled.symm
  obtain ⟨entries, rfl⟩ : ∃ entries, data = .dict entries := by
    cases hleads with
    | here => exact absurd rfl hpath
    | through => exact ⟨_, rfl⟩
  constructor
  · intro scope default trace hscope
    obtain ⟨pairs, hmap, -⟩ := exists_pairs fun entry he =>
      exists_becomes_of_converts (converts_entries hh hshows entry he).1
        (converts_entries hh hshows entry he).2
    rw [becomes_unique hv hmap] at hget ⊢
    obtain ⟨first, rest, rfl⟩ := List.exists_cons_of_ne_nil hspelled'
    have hcall := Evaluation.call_mapGet default hscope pairs (.string first)
      (rest.map .string) trace
    rw [← List.map_cons, hget _ hspelled] at hcall
    exact ⟨_, hcall⟩
  · intro store load name properties parse resolve quotes hload hproperties hparse hresolve hquotes
    have hpathOf : pathOf properties = path.map .text := by
      rw [pathOf, isNull_of_items hspelled' hproperties, if_neg Bool.false_ne_true, hproperties,
        ofValues_strings, hspelled]
    exact require_of_follow hload hparse hresolve hquotes (hpathOf ▸ hfollow) hw store

def nestedData : Host :=
  .dict [(.text "a", .dict [(.text "b\"", .number (.int 7)), (.text "", .null)]),
    (.text "b\"", .bool true)]

theorem leadsTo_nestedData : LeadsTo nestedData ["a", "b\""] (.number (.int 7)) := by
  have hbare : IsBareText (some '\'') "a" ∧ IsBareText (some '\'') "b\"" ∧
      IsBareText (some '\'') "" := by
    refine ⟨⟨rfl, ?_⟩, ⟨rfl, ?_⟩, ⟨rfl, ?_⟩⟩ <;> rintro _ ⟨⟩ <;> decide
  obtain ⟨ha, hb, hempty⟩ := hbare
  refine .through ⟨?_, by decide⟩ List.mem_cons_self
    (.through ⟨?_, by decide⟩ List.mem_cons_self (.here _))
  · exact List.forall_mem_cons.mpr ⟨⟨_, rfl, ha⟩, List.forall_mem_singleton.mpr ⟨_, rfl, hb⟩⟩
  · exact List.forall_mem_cons.mpr ⟨⟨_, rfl, hb⟩, List.forall_mem_singleton.mpr ⟨_, rfl, hempty⟩⟩

/-- Under a key with a mark in it, one key spelled with marks of the other kind. -/
theorem call_mapGet_eq_require_nested :
    ∃ v w : Value, (∀ store : Future.Store Host,
        store.launch (toStyle (.delimited none) nestedData) = (store, .now (.value v)) ∧
        store.launch (toStyle (.delimited none) (.number (.int 7))) = (store, .now (.value w))) ∧
      (∃ after, Evaluation.call ⟨Builtin.registry, []⟩ (fun _ => throw .endless) "map-get"
        [v, .string "\"a\"", .string "b\""] [] [] = .ok (w, after)) ∧
      (require Future.Store.empty fun _ => .ok nestedData).2 [.string "'nested'",
        .list [.string "\"a\"", .string "b\""] .comma false, .bool false, .bool false, .null] =
          .ok (.now (.value w)) := by
  have hdata : nestedData.IsData := ⟨trivial, ⟨trivial, trivial, trivial, trivial, trivial⟩,
    trivial, trivial, trivial⟩
  obtain ⟨v, w, -, hlaunch, hspelled⟩ := call_mapGet_eq_require (Or.inr rfl) (by simp)
    leadsTo_nestedData (fun _ hc => isData_of_contains hc hdata)
    (fun _ _ hc => (isData_of_contains hc hdata).elim)
  obtain ⟨hcall, hrequire⟩ := hspelled ["\"a\"", "b\""] (by decide)
  exact ⟨v, w, hlaunch, hcall _ _ [] rfl, hrequire _ _ _ _ _ _ _ rfl rfl rfl rfl rfl⟩

end Module

end SassData
