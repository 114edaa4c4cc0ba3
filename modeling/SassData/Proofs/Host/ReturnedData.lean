import Mathlib.Data.List.Induction
import SassData.Host.FromStyle
import SassData.Proofs.Evaluation.NamedValues
import SassData.Proofs.Host.PrintedData

/-!
# Data that comes back

Data of constants, numbers, texts, lists, tuples and dictionaries becomes a style sheet value at
once, and what comes back from the value is told from the data alone. Tuples are lists then, texts
are without their marks and have a backslash before each delimiter, and a dictionary has the texts
of its keys: where keys have become equal, the first has its place and the last its value.
-/

namespace SassData

set_option autoImplicit false

/-! ## Texts -/

namespace Text

def backslashed (delimiter : Option Char) (text : List Char) : List Char :=
  text.flatMap fun c => if delimiter = some c then ['\\', c] else [c]

/-- A text as it comes back: without its marks if it has any, and with a backslash before each
delimiter, which is its own mark or the one asked for. -/
def returned (asked : Option Char) (text : String) : String :=
  String.ofList (match unwrap? text.toList with
    | some (mark, inner) => backslashed (asked.map fun _ => mark) inner
    | none => backslashed asked text.toList)

/-- The text of an option for a delimiter; the empty one asks for none. -/
def delimiterText : Option Char → String
  | some mark => String.singleton mark
  | none => ""

theorem backslashed_none (text : List Char) : backslashed none text = text := by
  induction text with
  | nil => rfl
  | cons c rest ih =>
    rw [backslashed, List.flatMap_cons, ← backslashed, ih]
    rfl

theorem backslashed_of_not_mem {mark : Char} {text : List Char} (h : mark ∉ text) :
    backslashed (some mark) text = text := by
  induction text with
  | nil => rfl
  | cons c rest ih =>
    obtain ⟨hc, hrest⟩ := not_or.mp (mt List.mem_cons.mpr h)
    rw [backslashed, List.flatMap_cons, ← backslashed, ih hrest]
    simp [hc]

theorem escape_singleton (mark : Char) (text : List Char) :
    escape [mark] text = backslashed (some mark) text := by
  induction text with
  | nil => rfl
  | cons c rest ih =>
    rw [escape_singleton_cons, ih]
    by_cases h : mark = c
    · simp [backslashed, h]
    · simp [backslashed, h]

variable {q : Option Char}

/-- Between its marks a quoted text is escaped, and they are taken off again. -/
theorem unquote_quote (hq : ∀ mark, q = some mark → isMark mark) (text : String) :
    unquote (quote text (delimiterText q)) = returned q text := by
  cases q with
  | none =>
    have hwrap : quote text (delimiterText none) = text := by
      simp [quote, delimiterText, wrap_nil]
    rw [hwrap, unquote, payload, returned]
    cases unwrap? text.toList with
    | none => simp [backslashed_none]
    | some found => simp [backslashed_none]
  | some asked =>
    have hasked := hq asked rfl
    have hdelimiter : (delimiterText (some asked)).toList = [asked] := by
      simp [delimiterText]
    have hwrap (mark : Char) (hm : isMark mark) (inner : List Char) :
        payload ([mark] ++ escape [mark] inner ++ [mark]) = backslashed (some mark) inner := by
      rw [escape_singleton]
      exact payload_enclosed hm _
    rw [quote, unquote, String.toList_ofList, hdelimiter, returned, wrap, if_neg (by simp)]
    cases hu : unwrap? text.toList with
    | none =>
      have hd : delimiterFor [asked] text.toList = [asked] := by rw [delimiterFor, hu]
      have hp : payload text.toList = text.toList := by rw [payload, hu]
      rw [hd, hp, hwrap asked hasked]
    | some found =>
      obtain ⟨mark, inner⟩ := found
      have hd : delimiterFor [asked] text.toList = [mark] := by rw [delimiterFor, hu]
      have hp : payload text.toList = inner := by rw [payload, hu]
      rw [hd, hp, hwrap mark (enclosed_of_unwrap? hu).1]
      rfl

theorem unwrap?_eq_none_iff {text : String} :
    unwrap? text.toList = none ↔ isQuoted text = false := by
  simp [isQuoted]

theorem returned_eq_self {text : String} (hu : isQuoted text = false)
    (hm : ∀ mark, q = some mark → mark ∉ text.toList) : returned q text = text := by
  rw [returned, unwrap?_eq_none_iff.mpr hu]
  cases q with
  | none => simp [backslashed_none]
  | some mark => simp [backslashed_of_not_mem (hm mark rfl)]

end Text

/-! ## Names -/

namespace Named

variable {α : Type}

theorem put_map {names : List String} (hn : names.Nodup) (f : String → α) (name : String) (a : α) :
    Named.put name a (names.map fun k => (k, f k)) =
      (if name ∈ names then names else names ++ [name]).map fun k =>
        (k, if k = name then a else f k) := by
  induction names with
  | nil => simp [put]
  | cons k rest ih =>
    obtain ⟨hk, hrest⟩ := List.nodup_cons.mp hn
    rw [List.map_cons, put]
    by_cases h : k = name
    · subst h
      have hsame : rest.map (fun l => (l, f l)) =
          rest.map fun l => (l, if l = k then a else f l) := by
        refine List.map_congr_left fun l hl => ?_
        rw [if_neg]
        rintro rfl
        exact hk hl
      simp [hsame]
    · rw [if_neg (by simpa using h), ih hrest]
      by_cases hm : name ∈ rest
      · simp [hm, h]
      · simp [hm, h, Ne.symm h]

theorem eraseDups_concat (names : List String) (name : String) :
    (names ++ [name]).eraseDups =
      if name ∈ names.eraseDups then names.eraseDups else names.eraseDups ++ [name] := by
  rw [List.eraseDups_append]
  by_cases h : name ∈ names
  · simp [List.removeAll, h]
  · simp [List.removeAll, h, List.eraseDups_cons]

theorem nodup_eraseDups (names : List String) : names.eraseDups.Nodup := by
  induction names using List.reverseRecOn with
  | nil => exact List.nodup_nil
  | append_singleton names name ih =>
    rw [eraseDups_concat]
    split
    · exact ih
    · next h =>
      refine List.nodup_append.mpr ⟨ih, by simp, ?_⟩
      intro k hk l hl he
      rw [List.mem_singleton.mp hl] at he
      exact h (he ▸ hk)

end Named

namespace Host

/-- Each name once, where it comes first, with what it comes with last. -/
def collapsed (pairs : List (String × Host)) : List (String × Host) :=
  (pairs.map Prod.fst).eraseDups.map fun name => (name, (pairs.reverse.lookup name).getD .null)

theorem foldl_put_eq_collapsed (pairs : List (String × Host)) :
    pairs.foldl (fun all (name, item) => Named.put name item all) [] = collapsed pairs := by
  induction pairs using List.reverseRecOn with
  | nil => rfl
  | append_singleton pairs pair ih =>
    obtain ⟨name, item⟩ := pair
    rw [List.foldl_append, ih, List.foldl_cons, List.foldl_nil]
    dsimp only
    rw [collapsed, Named.put_map (Named.nodup_eraseDups _), collapsed, List.map_append,
      List.map_cons, List.map_nil, Named.eraseDups_concat]
    -- Looked up from behind, the last pair is the first that is met.
    refine List.map_congr_left fun k _ => ?_
    rw [List.reverse_append, List.reverse_singleton, List.singleton_append, List.lookup_cons]
    by_cases h : k = name
    · simp [h]
    · have hk : (k == name) = false := beq_eq_false_iff_ne.mpr h
      simp [h, hk]

theorem dictOfNamed_of_nodup {entries : List (String × Host)}
    (hn : (entries.map Prod.fst).Nodup) :
    dictOfNamed entries = .dict (entries.map fun (name, item) => (.text name, item)) := by
  have hfold := @Named.putAll_of_nodup _ [] entries hn
  rw [Named.putAll] at hfold
  rw [dictOfNamed, hfold]
  rfl

/-! ## Data -/

/-- Keys of a dictionary that have a text: texts, constants and integers. -/
def IsKey : Host → Prop
  | text _ | bool _ | null | number (.int _) => True
  | _ => False

def keySpelling : Host → String
  | text s => s
  | bool true => "true"
  | bool false => "false"
  | number (.int n) => toString n
  | _ => "null"

mutual

/-- Constants, numbers and texts, and lists, tuples and dictionaries of such data. -/
def IsData : Host → Prop
  | null | bool _ | number _ | text _ => True
  | list items | tuple items => AllData items
  | dict entries => EntriesData entries
  | _ => False

def AllData : List Host → Prop
  | [] => True
  | h :: rest => h.IsData ∧ AllData rest

def EntriesData : List (Host × Host) → Prop
  | [] => True
  | (key, h) :: rest => key.IsKey ∧ h.IsData ∧ EntriesData rest

end

mutual

/-- Data as it comes back when a delimiter is asked for, or none. Keys get a delimiter in any
case. -/
def returned (q : Option Char) : Host → Host
  | text s => .text (Text.returned q s)
  | list items | tuple items => .list (returnedItems q items)
  | dict entries =>
    .dict ((collapsed (returnedEntries q entries)).map fun (name, item) => (.text name, item))
  | h => h

def returnedItems (q : Option Char) : List Host → List Host
  | [] => []
  | h :: rest => h.returned q :: returnedItems q rest

def returnedEntries (q : Option Char) : List (Host × Host) → List (String × Host)
  | [] => []
  | (key, h) :: rest =>
    (Text.returned (some (q.getD '\'')) key.keySpelling, h.returned q) :: returnedEntries q rest

end

/-- A text that is not quoted and in which the delimiter does not stand. -/
def IsBareText (q : Option Char) (text : String) : Prop :=
  Text.isQuoted text = false ∧ ∀ mark, q = some mark → mark ∉ text.toList

mutual

/-- Data of constants, numbers, lists and dictionaries with bare texts and bare texts for keys, no
key twice. -/
def IsBare (q : Option Char) : Host → Prop
  | null | bool _ | number _ => True
  | text s => IsBareText q s
  | list items => AllBare q items
  | dict entries => EntriesBare q entries ∧ (entries.map fun entry => entry.1.keySpelling).Nodup
  | _ => False

def AllBare (q : Option Char) : List Host → Prop
  | [] => True
  | h :: rest => h.IsBare q ∧ AllBare q rest

def EntriesBare (q : Option Char) : List (Host × Host) → Prop
  | [] => True
  | (key, h) :: rest => (∃ s, key = text s ∧ IsBareText (some (q.getD '\'')) s) ∧ h.IsBare q ∧
      EntriesBare q rest

end

theorem keyName_eq {key : Host} (h : key.IsKey) : key.keyName = key.keySpelling := by
  cases key with
  | bool b => cases b <;> rfl
  | number m =>
    cases m with
    | int n => rfl
    | float x => cases h
  | null | text _ => rfl
  | _ => cases h

/-! ## There and back -/

def FromStyle.standard : FromStyle := ⟨false, false, false⟩

variable {q : Option Char}

def ToStyle.delimited (q : Option Char) : ToStyle := ⟨false, .leave, Text.delimiterText q⟩

theorem keyText_keyValue (hq : ∀ mark, q = some mark → Text.isMark mark) (name : String) :
    keyText (keyValue (.delimited q) name) = Text.returned (some (q.getD '\'')) name := by
  have hmark : ∀ mark, some (q.getD '\'') = some mark → Text.isMark mark := by
    rintro _ ⟨⟩
    cases q with
    | none => rfl
    | some mark => exact hq mark rfl
  have hdelimiter : (if (Text.delimiterText q).isEmpty then "'" else Text.delimiterText q) =
      Text.delimiterText (some (q.getD '\'')) := by
    cases q with
    | none => rfl
    | some mark => simp [Text.delimiterText]
  rw [keyValue, keyText, ToStyle.delimited, hdelimiter, Text.unquote_quote hmark]

mutual

theorem prospect_returned (hq : ∀ mark, q = some mark → Text.isMark mark)
    (handed : Host → Plan Host) (h : Host) (hd : h.IsData) :
    ∃ v, (planWith (.delimited q) handed h).prospect = .value (.value v) ∧
      ofValue .standard v = h.returned q := by
  match h with
  | null => exact ⟨.null, rfl, rfl⟩
  | bool b => exact ⟨.bool b, rfl, rfl⟩
  | number m => exact ⟨.number (.ofMagnitude m), rfl, rfl⟩
  | text s =>
    refine ⟨.string (Text.quote s (Text.delimiterText q)), rfl, ?_⟩
    exact congrArg Host.text (Text.unquote_quote hq s)
  | list items =>
    obtain ⟨vs, hv, hr⟩ := prospects_returnedItems hq handed items hd
    exact ⟨.list vs .comma false, prospect_listPlan hv, congrArg Host.list hr⟩
  | tuple items =>
    obtain ⟨vs, hv, hr⟩ := prospects_returnedItems hq handed items hd
    exact ⟨.list vs .comma false, prospect_listPlan hv, congrArg Host.list hr⟩
  | dict entries =>
    obtain ⟨vs, hv, hr⟩ := prospects_returnedEntries hq handed entries hd
    refine ⟨.map _, prospect_mapPlan hv, ?_⟩
    rw [ofValue, dictOfNamed, hr, foldl_put_eq_collapsed, Host.returned]

theorem prospects_returnedItems (hq : ∀ mark, q = some mark → Text.isMark mark)
    (handed : Host → Plan Host) (items : List Host) (hd : AllData items) :
    ∃ vs, Plan.prospects (planItems (.delimited q) handed items) = .value (vs.map Host.value) ∧
      ofValues .standard vs = returnedItems q items := by
  match items with
  | [] => exact ⟨[], rfl, rfl⟩
  | h :: rest =>
    obtain ⟨v, hv, hr⟩ := prospect_returned hq handed h hd.1
    obtain ⟨vs, hvs, hrs⟩ := prospects_returnedItems hq handed rest hd.2
    refine ⟨v :: vs, prospects_cons hv hvs, ?_⟩
    rw [ofValues, hr, hrs, returnedItems]

theorem prospects_returnedEntries (hq : ∀ mark, q = some mark → Text.isMark mark)
    (handed : Host → Plan Host) (entries : List (Host × Host)) (hd : EntriesData entries) :
    ∃ vs, Plan.prospects (planEntries (.delimited q) handed entries) =
        .value (vs.map Host.value) ∧
      ofPairs .standard
        ((entries.map fun (key, _) => keyValue (.delimited q) key.keyName).zip vs) =
          returnedEntries q entries := by
  match entries with
  | [] => exact ⟨[], rfl, rfl⟩
  | (key, h) :: rest =>
    obtain ⟨v, hv, hr⟩ := prospect_returned hq handed h hd.2.1
    obtain ⟨vs, hvs, hrs⟩ := prospects_returnedEntries hq handed rest hd.2.2
    refine ⟨v :: vs, prospects_cons hv hvs, ?_⟩
    rw [List.map_cons, List.zip_cons_cons, ofPairs, hr, hrs, keyText_keyValue hq,
      keyName_eq hd.1, returnedEntries]

end

mutual

theorem returned_of_isBare (h : Host) (hb : h.IsBare q) : h.returned q = h := by
  match h with
  | null | bool _ | number _ => rfl
  | text s => exact congrArg Host.text (Text.returned_eq_self hb.1 hb.2)
  | list items => exact congrArg Host.list (returnedItems_of_allBare items hb)
  | dict entries =>
    obtain ⟨hentries, hn⟩ := hb
    have hr := returnedEntries_of_entriesBare entries hentries
    have hkeys : ((returnedEntries q entries).map Prod.fst).Nodup := by
      rw [← hr, List.map_map] at hn
      exact hn
    rw [Host.returned, ← foldl_put_eq_collapsed, ← dictOfNamed, dictOfNamed_of_nodup hkeys]
    exact congrArg Host.dict hr

theorem returnedItems_of_allBare (items : List Host) (hb : AllBare q items) :
    returnedItems q items = items := by
  match items with
  | [] => rfl
  | h :: rest =>
    rw [returnedItems, returned_of_isBare h hb.1, returnedItems_of_allBare rest hb.2]

theorem returnedEntries_of_entriesBare (entries : List (Host × Host))
    (hb : EntriesBare q entries) :
    (returnedEntries q entries).map (fun (name, item) => (Host.text name, item)) = entries := by
  match entries with
  | [] => rfl
  | (key, h) :: rest =>
    obtain ⟨⟨s, rfl, hs⟩, hh, hrest⟩ := hb
    rw [returnedEntries, List.map_cons, returned_of_isBare h hh, keySpelling,
      Text.returned_eq_self hs.1 hs.2, returnedEntries_of_entriesBare rest hrest]

end

/-- Data that is converted with a quotation mark for delimiter, or with none, becomes a value at
once, and what comes back is the data but for what `Host.returned` says. Bare data comes back as it
is. -/
theorem resolve_toStyle (hq : ∀ mark, q = some mark → Text.isMark mark) (h : Host)
    (hd : h.IsData) :
    ∃ v, (∀ s : Future.Store Host, s.launch (toStyle (.delimited q) h) = (s, .now (.value v))) ∧
      resolve .standard (.value v) = .ok (h.returned q) ∧
      (h.IsBare q → resolve .standard (.value v) = .ok h) := by
  obtain ⟨v, hv, hr⟩ := prospect_returned hq (planTo (.delimited q) 1) h hd
  have hback : resolve .standard (.value v) = .ok (h.returned q) := congrArg Except.ok hr
  refine ⟨v, launch_of_prospect hv, hback, fun hb => ?_⟩
  rw [hback, returned_of_isBare h hb]

/-- Two keys become equal, and a text in marks keeps its own mark. -/
theorem resolve_toStyle_collision :
    ∃ v, (∀ s : Future.Store Host, s.launch (toStyle (.delimited (some '"'))
        (.dict [(.number (.int 1), .null), (.text "k\"", .tuple [.text "it's", .text "'a'b'"]),
          (.text "1", .bool true)])) = (s, .now (.value v))) ∧
      resolve .standard (.value v) = .ok (.dict [(.text "1", .bool true),
        (.text "k\\\"", .list [.text "it's", .text "a\\'b"])]) := by
  have hmark : ∀ mark, some '"' = some mark → Text.isMark mark := by
    rintro _ ⟨⟩
    rfl
  obtain ⟨v, hv, hback, -⟩ := resolve_toStyle hmark
    (.dict [(.number (.int 1), .null), (.text "k\"", .tuple [.text "it's", .text "'a'b'"]),
      (.text "1", .bool true)])
    ⟨trivial, trivial, trivial, ⟨trivial, trivial, trivial⟩, trivial, trivial, trivial⟩
  exact ⟨v, hv, hback⟩

end Host

end SassData
