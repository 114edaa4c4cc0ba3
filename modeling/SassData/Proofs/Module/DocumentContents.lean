import Mathlib.Data.Option.Basic
import Mathlib.Tactic.SplitIfs
import SassData.Module.Load

/-!
# What documents hold

A document holds constants, numbers, texts, dates, and lists and dictionaries of these, the latter
with texts for keys. Every reader of a part gives such data if what it goes on from is such data,
and so nothing that a file holds is a style sheet value, a callable or a future.
-/

namespace SassData

set_option autoImplicit false

namespace Host

/-- Data that a document can hold; dates and times are foreign data. -/
inductive IsWritten : Host → Prop
  | null : IsWritten .null
  | bool (b : Bool) : IsWritten (.bool b)
  | number (m : Number.Magnitude) : IsWritten (.number m)
  | text (s : String) : IsWritten (.text s)
  | foreign : IsWritten .foreign
  | list {items : List Host} (h : ∀ item ∈ items, IsWritten item) : IsWritten (.list items)
  | dict {names : Named Host} (h : ∀ entry ∈ names, IsWritten entry.2) :
    IsWritten (.dict (names.map fun (name, item) => (.text name, item)))

def AllWritten (names : Named Host) : Prop := ∀ entry ∈ names, IsWritten entry.2

variable {names : Named Host} {name : String} {h : Host}

theorem allWritten_nil : AllWritten [] := List.forall_mem_nil _

theorem AllWritten.cons (hh : IsWritten h) (hnames : AllWritten names) :
    AllWritten ((name, h) :: names) :=
  List.forall_mem_cons.mpr ⟨hh, hnames⟩

theorem AllWritten.put (hnames : AllWritten names) (hh : IsWritten h) :
    AllWritten (Named.put name h names) := by
  induction names with
  | nil => exact .cons hh allWritten_nil
  | cons entry rest ih =>
    obtain ⟨hentry, hrest⟩ := List.forall_mem_cons.mp hnames
    rw [Named.put]
    split
    · exact .cons hh hrest
    · exact .cons hentry (ih hrest)

theorem AllWritten.get? (hnames : AllWritten names) (hget : names.get? name = some h) :
    IsWritten h := by
  induction names with
  | nil => cases hget
  | cons entry rest ih =>
    obtain ⟨hentry, hrest⟩ := List.forall_mem_cons.mp hnames
    rw [Named.get?] at hget
    split at hget
    · cases hget
      exact hentry
    · exact ih hrest hget

theorem isWritten_dictOfNamed (hnames : AllWritten names) : IsWritten (dictOfNamed names) := by
  refine .dict ?_
  have hfold : ∀ all, AllWritten all →
      AllWritten (names.foldl (fun all (name, item) => Named.put name item all) all) := by
    induction names with
    | nil => exact fun all hall => hall
    | cons entry rest ih =>
      obtain ⟨hentry, hrest⟩ := List.forall_mem_cons.mp hnames
      exact fun all hall => ih hrest _ (hall.put hentry)
  exact hfold [] allWritten_nil

theorem IsWritten.of_mem {entries : List (Host × Host)} (hd : IsWritten (.dict entries))
    {entry : Host × Host} (he : entry ∈ entries) : IsWritten entry.2 := by
  cases hd with
  | dict hnames =>
    obtain ⟨named, hm, rfl⟩ := List.mem_map.mp he
    exact hnames named hm

theorem IsWritten.of_mem_list {items : List Host} (hl : IsWritten (.list items)) :
    ∀ item ∈ items, IsWritten item := by
  cases hl with
  | list h => exact h

end Host

open Host (IsWritten AllWritten allWritten_nil isWritten_dictOfNamed)

/-! ## JSON -/

namespace Json

theorem isWritten_number? {text rest : List Char} {h : Host} (hn : number? text = some (h, rest)) :
    IsWritten h := by
  simp only [number?] at hn
  split_ifs at hn <;> cases hn <;> exact .number _

theorem isWritten_constant? {text rest : List Char} {h : Host}
    (hc : constant? text = some (h, rest)) : IsWritten h := by
  obtain ⟨entry, hm, hc⟩ := List.exists_of_findSome?_eq_some hc
  obtain ⟨left, -, he⟩ := Option.map_eq_some_iff.mp hc
  cases he
  have hconstants : AllWritten constants :=
    .cons .null (.cons (.bool true) (.cons (.bool false)
      (.cons (.number _) (.cons (.number _) (.cons (.number _) allWritten_nil)))))
  exact hconstants entry hm

/-- What the readers of values, items and members give when they nest to a depth. -/
structure ReadsWritten (n : Nat) : Prop where
  value : ∀ {text rest : List Char} {h : Host}, value? n text = some (h, rest) → IsWritten h
  items : ∀ {before items : List Host} {text rest : List Char}, (∀ h ∈ before, IsWritten h) →
    items? n before text = some (items, rest) → ∀ h ∈ items, IsWritten h
  members : ∀ {before members : Named Host} {text rest : List Char}, AllWritten before →
    members? n before text = some (members, rest) → AllWritten members

theorem readsWritten (n : Nat) : ReadsWritten n := by
  -- Each reader calls the others one level deeper, so one induction is on all three.
  induction n with
  | zero =>
    constructor
    · intro text rest h hv
      cases hv
    · intro before items text rest _ hi
      cases hi
    · intro before members text rest _ hm
      cases hm
  | succ n ih =>
    constructor
    · intro text rest h hv
      unfold value? at hv
      split at hv
      · obtain ⟨found, -, he⟩ := Option.map_eq_some_iff.mp hv
        cases he
        exact .text _
      · split at hv
        · cases hv
          exact .list (List.forall_mem_nil _)
        · obtain ⟨found, hf, he⟩ := Option.map_eq_some_iff.mp hv
          cases he
          exact .list (ih.items (List.forall_mem_nil _) hf)
      · split at hv
        · cases hv
          exact .dict allWritten_nil
        · obtain ⟨found, hf, he⟩ := Option.map_eq_some_iff.mp hv
          cases he
          exact isWritten_dictOfNamed (ih.members allWritten_nil hf)
      · rcases Option.or_eq_some_iff.mp hv with hc | ⟨-, hn⟩
        · exact isWritten_constant? hc
        · exact isWritten_number? hn
    · intro before items text rest hbefore hi
      rw [items?, Option.bind_eq_bind, Option.bind_eq_some_iff] at hi
      obtain ⟨⟨h, left⟩, hv, hi⟩ := hi
      dsimp only at hi
      have hall := List.forall_mem_cons.mpr ⟨ih.value hv, hbefore⟩
      split at hi
      · exact ih.items hall hi
      · cases hi
        exact fun item hm => hall item (List.mem_reverse.mp hm)
      · cases hi
    · intro before members text rest hbefore hm
      unfold members? at hm
      split at hm
      · simp only [Option.bind_eq_bind, Option.bind_eq_some_iff] at hm
        obtain ⟨⟨name, left⟩, -, hm⟩ := hm
        split at hm
        · simp only [Option.bind_eq_some_iff] at hm
          obtain ⟨⟨h, after⟩, hv, hm⟩ := hm
          have hall : AllWritten ((name, h) :: before) := .cons (ih.value hv) hbefore
          split at hm
          · exact ih.members hall hm
          · cases hm
            exact fun entry he => hall entry (List.mem_reverse.mp he)
          · cases hm
        · cases hm
      · cases hm

theorem isWritten_read {text : String} {h : Host} (hr : read text = .ok h) : IsWritten h := by
  unfold read at hr
  dsimp only at hr
  split at hr
  · next hv =>
    split at hr
    · cases hr
      exact (readsWritten _).value hv
    · cases hr
  · cases hr

end Json

/-! ## TOML -/

namespace Toml

/-! ### Tables -/

theorem allWritten_filterMap {entries : List (Host × Host)} (hd : IsWritten (.dict entries)) :
    AllWritten (entries.filterMap fun (key, h) => match key with
      | .text name => some (name, h)
      | _ => none) := by
  intro named hm
  obtain ⟨⟨key, h⟩, he, hn⟩ := List.mem_filterMap.mp hm
  dsimp only at hn
  split at hn
  · cases hn
    exact hd.of_mem he
  · cases hn

/-- What a change keeps of the table at the end of a path is kept of the whole. -/
theorem allWritten_within {enterArrays : Bool} {change : Named Host → Option (Named Host)}
    (hchange : ∀ {table table'}, AllWritten table → change table = some table' → AllWritten table')
    {path : Path} {table table' : Named Host} (ht : AllWritten table)
    (hw : within enterArrays change path table = some table') : AllWritten table' := by
  induction path generalizing table table' with
  | nil => exact hchange ht hw
  | cons part path ih =>
    simp only [within] at hw
    split at hw
    · obtain ⟨inner, hi, he⟩ := Option.bind_eq_some_iff.mp hw
      cases he
      exact ht.put (.dict (ih allWritten_nil hi))
    · next hget =>
      obtain ⟨inner, hi, he⟩ := Option.bind_eq_some_iff.mp hw
      cases he
      exact ht.put (.dict (ih (allWritten_filterMap (ht.get? hget)) hi))
    · next items hget =>
      split at hw
      · next hlast =>
        -- A path through an array goes on in its last table; the items before stay.
        obtain ⟨inner, hi, he⟩ := Option.bind_eq_some_iff.mp hw
        cases he
        have hitems := (ht.get? hget).of_mem_list
        have hlast := hitems _ (List.mem_of_getLast? hlast)
        refine ht.put (.list (List.forall_mem_append.mpr ⟨?_, ?_⟩))
        · exact fun item hm => hitems item ((List.dropLast_sublist items).subset hm)
        · exact List.forall_mem_singleton.mpr (.dict (ih (allWritten_filterMap hlast) hi))
      · cases hw
    · cases hw

theorem allWritten_insert {enterArrays : Bool} {path : Path} {name : String} {h : Host}
    {table table' : Named Host} (ht : AllWritten table) (hh : IsWritten h)
    (hi : insert enterArrays path name h table = some table') : AllWritten table' := by
  refine allWritten_within ?_ ht hi
  intro inner inner' hinner hc
  split at hc <;> cases hc
  exact hinner.put hh

theorem allWritten_appendTable {path : Path} {table table' : Named Host} (ht : AllWritten table)
    (ha : appendTable path table = some table') : AllWritten table' := by
  obtain ⟨name, -, hw⟩ := Option.bind_eq_some_iff.mp ha
  have hempty : ∀ item ∈ [Host.dict []], IsWritten item :=
    List.forall_mem_singleton.mpr (.dict allWritten_nil)
  refine allWritten_within ?_ ht hw
  intro inner inner' hinner hc
  split at hc
  · cases hc
    exact hinner.put (.list hempty)
  · next hget =>
    cases hc
    exact hinner.put (.list (List.forall_mem_append.mpr ⟨(hinner.get? hget).of_mem_list, hempty⟩))
  · cases hc

/-! ### Values -/

variable {text rest : List Char} {h : Host}

theorem isWritten_based? (hb : based? text = some (h, rest)) : IsWritten h := by
  unfold based? at hb
  split at hb
  all_goals
    obtain ⟨base, -, hb⟩ := Option.bind_eq_some_iff.mp hb
    obtain ⟨digits, -, hb⟩ := Option.bind_eq_some_iff.mp hb
    cases hb
    exact .number _

theorem isWritten_decimal? (hd : decimal? text = some (h, rest)) : IsWritten h := by
  unfold decimal? at hd
  dsimp only at hd
  split at hd
  all_goals
    obtain ⟨digits, -, hd⟩ := Option.bind_eq_some_iff.mp hd
    split at hd
    all_goals
      cases hd
      exact .number _

theorem isWritten_special? (hs : special? text = some (h, rest)) : IsWritten h := by
  simp only [special?] at hs
  split_ifs at hs <;> cases hs <;> exact .number _

/-- What the readers of values, items and members give when they nest to a depth. -/
structure ReadsWritten (n : Nat) : Prop where
  value : ∀ {text rest : List Char} {h : Host}, value? n text = some (h, rest) → IsWritten h
  items : ∀ {before items : List Host} {text rest : List Char}, (∀ h ∈ before, IsWritten h) →
    items? n before text = some (items, rest) → ∀ h ∈ items, IsWritten h
  members : ∀ {marks : Marks} {table table' : Named Host} {text rest : List Char},
    AllWritten table → members? n marks table text = some (table', rest) → AllWritten table'

theorem readsWritten (n : Nat) : ReadsWritten n := by
  induction n with
  | zero =>
    constructor
    · intro text rest h hv
      cases hv
    · intro before items text rest _ hi
      cases hi
    · intro marks table table' text rest _ hm
      cases hm
  | succ n ih =>
    constructor
    · intro text rest h hv
      unfold value? at hv
      split at hv
      · obtain ⟨found, -, he⟩ := Option.map_eq_some_iff.mp hv
        cases he
        exact .text _
      · obtain ⟨found, -, he⟩ := Option.map_eq_some_iff.mp hv
        cases he
        exact .text _
      · obtain ⟨left, -, hv⟩ := Option.bind_eq_some_iff.mp hv
        split at hv
        · cases hv
          exact .list (List.forall_mem_nil _)
        · obtain ⟨found, hf, he⟩ := Option.bind_eq_some_iff.mp hv
          cases he
          exact .list (ih.items (List.forall_mem_nil _) hf)
      · split at hv
        · cases hv
          exact .dict allWritten_nil
        · obtain ⟨found, hf, he⟩ := Option.map_eq_some_iff.mp hv
          cases he
          exact isWritten_dictOfNamed (ih.members allWritten_nil hf)
      · split_ifs at hv
        · cases hv
          exact .bool true
        · cases hv
          exact .bool false
        · split at hv
          · split_ifs at hv
            cases hv
            exact .foreign
          · split at hv
            · cases hv
              exact .foreign
            · rcases Option.or_eq_some_iff.mp hv with hv | ⟨-, hs⟩
              · rcases Option.or_eq_some_iff.mp hv with hb | ⟨-, hd⟩
                · exact isWritten_based? hb
                · exact isWritten_decimal? hd
              · exact isWritten_special? hs
    · intro before items text rest hbefore hi
      rw [items?] at hi
      obtain ⟨⟨h, left⟩, hv, hi⟩ := Option.bind_eq_some_iff.mp hi
      obtain ⟨after, -, hi⟩ := Option.bind_eq_some_iff.mp hi
      have hall := List.forall_mem_cons.mpr ⟨ih.value hv, hbefore⟩
      have hreverse (item : Host) (hm : item ∈ (h :: before).reverse) : IsWritten item :=
        hall item (List.mem_reverse.mp hm)
      split at hi
      · cases hi
        exact hreverse
      · obtain ⟨next, -, hi⟩ := Option.bind_eq_some_iff.mp hi
        split at hi
        · cases hi
          exact hreverse
        · exact ih.items hall hi
      · cases hi
    · intro marks table table' text rest ht hm
      rw [members?] at hm
      obtain ⟨⟨path, left⟩, -, hm⟩ := Option.bind_eq_some_iff.mp hm
      dsimp only at hm
      split at hm
      · obtain ⟨⟨h, after⟩, hv, hm⟩ := Option.bind_eq_some_iff.mp hm
        obtain ⟨name, -, hm⟩ := Option.bind_eq_some_iff.mp hm
        obtain ⟨-, -, hm⟩ := Option.bind_eq_some_iff.mp hm
        obtain ⟨inner, hi, hm⟩ := Option.bind_eq_some_iff.mp hm
        have hinner := allWritten_insert ht (ih.value hv) hi
        split at hm
        · cases hm
          exact hinner
        · exact ih.members hinner hm
        · cases hm
      · cases hm

/-! ### Statements -/

variable {r r' : Reading}

theorem allWritten_assignment? (hr : AllWritten r.table)
    (ha : assignment? r text = some (r', rest)) : AllWritten r'.table := by
  obtain ⟨⟨path, left⟩, -, ha⟩ := Option.bind_eq_some_iff.mp ha
  dsimp only at ha
  split at ha
  · obtain ⟨⟨h, after⟩, hv, ha⟩ := Option.bind_eq_some_iff.mp ha
    obtain ⟨name, -, ha⟩ := Option.bind_eq_some_iff.mp ha
    obtain ⟨-, -, ha⟩ := Option.bind_eq_some_iff.mp ha
    obtain ⟨-, -, ha⟩ := Option.bind_eq_some_iff.mp ha
    obtain ⟨table, hi, ha⟩ := Option.bind_eq_some_iff.mp ha
    cases ha
    exact allWritten_insert hr ((readsWritten _).value hv) hi
  · cases ha

theorem allWritten_tableHeader? (hr : AllWritten r.table)
    (hh : tableHeader? r text = some (r', rest)) : AllWritten r'.table := by
  obtain ⟨⟨path, left⟩, -, hh⟩ := Option.bind_eq_some_iff.mp hh
  obtain ⟨-, -, hh⟩ := Option.bind_eq_some_iff.mp hh
  obtain ⟨table, hw, hh⟩ := Option.bind_eq_some_iff.mp hh
  split at hh
  · cases hh
    refine allWritten_within ?_ hr hw
    intro inner inner' hinner he
    cases he
    exact hinner
  · cases hh

theorem allWritten_arrayHeader? (hr : AllWritten r.table)
    (hh : arrayHeader? r text = some (r', rest)) : AllWritten r'.table := by
  obtain ⟨⟨path, left⟩, -, hh⟩ := Option.bind_eq_some_iff.mp hh
  obtain ⟨-, -, hh⟩ := Option.bind_eq_some_iff.mp hh
  obtain ⟨table, ha, hh⟩ := Option.bind_eq_some_iff.mp hh
  split at hh
  · cases hh
    exact allWritten_appendTable hr ha
  · cases hh

theorem allWritten_statement? (hr : AllWritten r.table)
    (hs : statement? r text = some (r', rest)) : AllWritten r'.table := by
  unfold statement? at hs
  dsimp only at hs
  have hsettled : AllWritten { r with marks := r.pending ++ r.marks, pending := [] }.table := hr
  split at hs
  · exact allWritten_arrayHeader? hsettled hs
  · exact allWritten_tableHeader? hsettled hs
  · cases hs
    exact hr
  · exact allWritten_assignment? hr hs

theorem allWritten_document? {n : Nat} {table : Named Host} (hr : AllWritten r.table)
    (hd : document? n r text = some table) : AllWritten table := by
  induction n generalizing r text with
  | zero => cases hd
  | succ n ih =>
    unfold document? at hd
    split at hd
    · cases hd
      exact hr
    · exact ih hr hd
    · obtain ⟨⟨next, left⟩, hs, hd⟩ := Option.bind_eq_some_iff.mp hd
      obtain ⟨after, -, hd⟩ := Option.bind_eq_some_iff.mp hd
      have hnext := allWritten_statement? hr hs
      split at hd
      · cases hd
        exact hnext
      · exact ih hnext hd
      · cases hd

theorem isWritten_read {text : String} {h : Host} (hr : read text = .ok h) : IsWritten h := by
  unfold read at hr
  split at hr
  · next hd =>
    cases hr
    exact isWritten_dictOfNamed (allWritten_document? allWritten_nil hd)
  · cases hr

end Toml

end SassData
