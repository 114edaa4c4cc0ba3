import SassData.Proofs.Module.DocumentContents
import SassData.Proofs.Value.OneLineText

/-!
# Selecting from a file

A path of names behind a colon asks for attributes. A dictionary has none but its operations, and so
the names of its entries do not lead to what stands under them, as the same names do as a path of
keys.
-/

namespace SassData

set_option autoImplicit false

namespace Host

/-! ## Paths of keys -/

/-- Keys lead from data to a part of it, each of them one of the dictionary reached by those before
it. -/
inductive KeysLead : Host → List String → Host → Prop
  | here (h : Host) : KeysLead h [] h
  | through {entries : List (Host × Host)} {name : String} {names : List String} {h part : Host}
      (hentry : itemUnder? entries (.text name) = some h) (hrest : KeysLead h names part) :
      KeysLead (.dict entries) (name :: names) part

variable {h part : Host} {names : List String} {entries : List (Host × Host)}

theorem followFrom_of_keysLead (hlead : KeysLead h names part) (whole : List String) :
    followFrom whole h (names.map .text) = .ok part := by
  induction hlead with
  | here h => rfl
  | @through entries name names h part hentry _ ih =>
    have hstep : (Host.dict entries).step (.text name) = .ok (.ok h) := by
      simp [step, stepInDict, isHashable, hentry]
    rw [List.map_cons, followFrom, hstep]
    exact ih

theorem mem_of_itemUnder? {key : Host} (hfind : itemUnder? entries key = some h) :
    ∃ entry ∈ entries, entry.2 = h := by
  obtain ⟨entry, hf, he⟩ := Option.map_eq_some_iff.mp hfind
  exact ⟨entry, List.mem_of_find?_eq_some hf, he⟩

theorem IsWritten.of_keysLead (hlead : KeysLead h names part) (hw : IsWritten h) :
    IsWritten part := by
  induction hlead with
  | here h => exact hw
  | through hentry _ ih =>
    obtain ⟨entry, hm, rfl⟩ := mem_of_itemUnder? hentry
    exact ih (hw.of_mem hm)

/-! ## Attributes of dictionaries -/

theorem attribute?_dict (entries : List (Host × Host)) (name : String) :
    (Host.dict entries).attribute? name =
      .ok (if name ∈ dictOperations then some (.callable ((Host.dict entries).operation name))
        else none) := rfl

end Host

namespace Module

open Host (KeysLead dictOperations itemUnder? same)

variable {file name : String} {names : List String} {entries : List (Host × Host)} {c : Char}

/-! ## Reading a name -/

/-- A letter or an underscore, and letters, digits and underscores behind it. -/
def IsName (name : String) : Prop :=
  name.toList.head?.any Text.isNameStart = true ∧
    name.toList.all (fun c => c.isAlphanum || c == '_') = true

instance (name : String) : Decidable (IsName name) := inferInstanceAs (Decidable (_ ∧ _))

/-- Names between double underscores are not those of data: whatever they lead to is left open. -/
def IsReserved (name : String) : Prop := "__".toList <+: name.toList ∧ "__".toList <:+ name.toList

instance (name : String) : Decidable (IsReserved name) := inferInstanceAs (Decidable (_ ∧ _))

/-- A name of the file with a path of names behind it. -/
def selector (file : String) (names : List String) : String :=
  file ++ ":" ++ ".".intercalate names

theorem isAlphanum_of_mem (hname : IsName name) (hc : c ∈ name.toList) :
    (c.isAlphanum || c == '_') = true :=
  List.all_eq_true.mp hname.2 c hc

theorem not_mem_of_isName (hname : IsName name) (hc : (c.isAlphanum || c == '_') = false) :
    c ∉ name.toList := by
  intro hm
  rw [isAlphanum_of_mem hname hm] at hc
  cases hc

theorem isAlphanum_of_mem_intercalate (hnames : ∀ name ∈ names, IsName name)
    (hc : c ∈ (".".intercalate names).toList) : (c.isAlphanum || c == '_' || c == '.') = true := by
  rcases Text.mem_intercalate hc with hdot | ⟨name, hm, hc⟩
  · rw [List.mem_singleton.mp hdot]
    rfl
  · rw [isAlphanum_of_mem (hnames name hm) hc, Bool.true_or]

theorem not_mem_intercalate (hnames : ∀ name ∈ names, IsName name)
    (hc : (c.isAlphanum || c == '_' || c == '.') = false) :
    c ∉ (".".intercalate names).toList := by
  intro hm
  rw [isAlphanum_of_mem_intercalate hnames hm] at hc
  cases hc

theorem head?_intercalate (hnames : ∀ name ∈ names, IsName name) (hne : names ≠ []) :
    (".".intercalate names).toList.head?.any Text.isNameStart = true := by
  obtain ⟨first, rest, rfl⟩ := List.exists_cons_of_ne_nil hne
  have hfirst := (hnames first List.mem_cons_self).1
  cases hchars : first.toList with
  | nil =>
    rw [hchars] at hfirst
    cases hfirst
  | cons d chars =>
    rw [hchars] at hfirst
    cases rest with
    | nil => simpa [hchars] using hfirst
    | cons next rest => simpa [String.intercalate_cons_cons, hchars] using hfirst

theorem splitOn_intercalate (hnames : ∀ name ∈ names, IsName name) (hne : names ≠ []) :
    ((".".intercalate names).toList.splitOn '.').map String.ofList = names := by
  have hdot (chars : List Char) (hm : chars ∈ names.map String.toList) : '.' ∉ chars := by
    obtain ⟨name, hname, rfl⟩ := List.mem_map.mp hm
    exact not_mem_of_isName (hnames name hname) (by decide)
  have hne' : names.map String.toList ≠ [] := fun h => hne (List.map_eq_nil_iff.mp h)
  rw [String.toList_intercalate]
  change (List.splitOn '.' (List.intercalate ['.'] _)).map String.ofList = names
  rw [List.splitOn_intercalate '.' hdot hne']
  simp

theorem target_of_not_mem (hcolon : ':' ∉ name.toList) : target name = (name, none) := by
  have hbefore : name.toList.reverse.dropWhile (· != ':') = [] := by
    rw [List.dropWhile_eq_nil_iff]
    intro c hc
    have hne : c ≠ ':' := fun h => hcolon (List.mem_reverse.mp (h ▸ hc))
    exact bne_iff_ne.mpr hne
  rw [target, hbefore]
  rfl

/-- A name of a file and a path of names are told apart again. A line break in the first makes the
whole the name of a file. -/
theorem target_selector (hnames : ∀ name ∈ names, IsName name) (hne : names ≠ [])
    (hfile : file ≠ "") :
    target (selector file names) =
      if '\n' ∈ file.toList then (selector file names, none) else (file, some names) := by
  have hcolon : ':' ∉ (".".intercalate names).toList := not_mem_intercalate hnames (by decide)
  have hbreak : '\n' ∉ (".".intercalate names).toList := not_mem_intercalate hnames (by decide)
  have hreversed : (selector file names).toList.reverse =
      (".".intercalate names).toList.reverse ++ ':' :: file.toList.reverse := by
    simp [selector]
  have hbehind (c : Char) (hc : c ∈ (".".intercalate names).toList.reverse) :
      (c != ':') = true :=
    bne_iff_ne.mpr fun h => hcolon (List.mem_reverse.mp (h ▸ hc))
  have hlast : ((".".intercalate names).toList.getLast? == some '\n') = false := by
    rw [beq_eq_false_iff_ne]
    exact fun h => hbreak (List.mem_of_getLast? h)
  have hall : (".".intercalate names).toList.all
      (fun c => c.isAlphanum || c == '_' || c == '.') = true := by
    rw [List.all_eq_true]
    exact fun c hc => isAlphanum_of_mem_intercalate hnames hc
  have hempty : file.toList ≠ [] := fun h => hfile (String.toList_eq_nil_iff.mp h)
  rw [target, hreversed, List.takeWhile_append_of_pos hbehind, List.dropWhile_append_of_pos hbehind]
  simp only [List.takeWhile_cons, List.dropWhile_cons, bne_self_eq_false, Bool.false_eq_true,
    if_false, List.append_nil, List.reverse_reverse, List.drop_succ_cons, List.drop_zero, hlast,
    head?_intercalate hnames hne, hall, splitOn_intercalate hnames hne, String.ofList_toList]
  simp [hempty, ite_not]

/-! ## Loading -/

variable {files : Files} {data : Host}

theorem load_eq_ok_iff (hfile : target file = (file, none)) :
    load files file = .ok data ↔
      file ≠ "" ∧ (file.endsWith ".json" || file.endsWith ".toml") = true ∧
        ∃ parts text, files.find? file = some (parts, text) ∧
          read? (parts.getLast?.getD "") text = some (.ok data) := by
  unfold load
  rw [hfile]
  dsimp only
  constructor
  · intro hload
    split at hload
    · cases hload
    · next hempty =>
      split at hload
      · cases hload
      · next hends =>
        rw [Bool.not_eq_true', Bool.not_eq_false] at hends
        refine ⟨fun h => hempty (h ▸ rfl), hends, ?_⟩
        split at hload
        · cases hload
        · next parts text hfind =>
          split at hload
          · cases hload
          · next outcome hread =>
            obtain ⟨_, hdata, hload⟩ := Outcome.bind_eq_ok_iff.mp hload
            cases hload
            exact ⟨parts, text, hfind, hdata ▸ hread⟩
  · rintro ⟨hne, hends, parts, text, hfind, hread⟩
    have hempty : file.isEmpty ≠ true := fun h => hne (String.isEmpty_iff.mp h)
    simp only [hempty, hends, hfind, hread]
    rfl

/-- With names behind its own name a file is loaded, and the names are selected from its data. -/
theorem load_of_target (hfile : target file = (file, none))
    (hname : target name = (file, some names)) (hne : name ≠ "")
    (hload : load files file = .ok data) :
    load files name = select names data names := by
  obtain ⟨-, hends, parts, text, hfind, hread⟩ := (load_eq_ok_iff hfile).mp hload
  have hempty : name.isEmpty ≠ true := fun h => hne (String.isEmpty_iff.mp h)
  unfold load
  rw [hname]
  simp only [hempty, hends, hfind, hread]
  rfl

theorem isWritten_of_load (hfile : target file = (file, none))
    (hload : load files file = .ok data) : Host.IsWritten data := by
  obtain ⟨-, -, parts, text, -, hread⟩ := (load_eq_ok_iff hfile).mp hload
  unfold read? at hread
  dsimp only at hread
  split_ifs at hread
  · exact Json.isWritten_read (Option.some.inj hread)
  · exact Toml.isWritten_read (Option.some.inj hread)

/-- What a dictionary gives for a path of names: the first is no attribute of it, or it is one of
its operations, and then that is all there is. -/
theorem select_dict (whole : List String) (first : String) (rest : List String) :
    select whole (.dict entries) (first :: rest) =
      if first ∈ dictOperations then
        match rest with
        | [] => .ok (.callable ((Host.dict entries).operation first))
        | second :: _ =>
          .error (.unresolvedPath (whole.map Text.display) (Text.display second) none)
      else .error (.unresolvedPath (whole.map Text.display) (Text.display first) none) := by
  rw [select, Host.attribute?_dict]
  split
  · cases rest with
    | nil => rfl
    -- A callable has no attributes, so a second name ends the path.
    | cons second others => rfl
  · rfl

theorem select_ne {part : Host} (hpart : Host.IsWritten part) (whole : List String) {first : String}
    {rest : List String} : select whole (.dict entries) (first :: rest) ≠ .ok part := by
  rw [select_dict]
  intro h
  split at h
  · cases rest with
    | nil =>
      cases h
      cases hpart
    | cons second others => cases h
  · cases h

theorem selector_ne (file : String) (names : List String) : selector file names ≠ "" := by
  intro h
  have hcolon : ':' ∈ (selector file names).toList := by simp [selector]
  rw [h] at hcolon
  cases hcolon

/-- Keys that lead through the data of a file never lead there as names behind a colon: the first of
them is no attribute of the dictionary, unless it is the name of an operation. If the name of the
file has a line break, the names are taken for a part of it. -/
theorem follow_load_ne {first : String} {rest : List String} {part : Host}
    (hcolon : ':' ∉ file.toList) (hload : load files file = .ok (.dict entries))
    (hnames : ∀ name ∈ first :: rest, IsName name ∧ ¬ IsReserved name)
    (hlead : KeysLead (.dict entries) (first :: rest) part) :
    (Host.dict entries).follow ((first :: rest).map .text) = .ok part ∧
      ('\n' ∈ file.toList →
        target (selector file (first :: rest)) = (selector file (first :: rest), none)) ∧
      ('\n' ∉ file.toList →
        load files (selector file (first :: rest)) ≠ .ok part ∧
          (first ∉ dictOperations → load files (selector file (first :: rest)) = .error
            (.unresolvedPath ((first :: rest).map Text.display) (Text.display first) none))) := by
  have hfile := target_of_not_mem hcolon
  have hne : file ≠ "" := ((load_eq_ok_iff hfile).mp hload).1
  have htarget := target_selector (fun name hm => (hnames name hm).1) (List.cons_ne_nil first rest)
    hne
  refine ⟨Host.followFrom_of_keysLead hlead _, fun hbreak => ?_, fun hbreak => ?_⟩
  · rw [htarget, if_pos hbreak]
  · rw [if_neg hbreak] at htarget
    rw [load_of_target hfile htarget (selector_ne file _) hload]
    refine ⟨select_ne ((isWritten_of_load hfile hload).of_keysLead hlead) _, fun hfirst => ?_⟩
    rw [select_dict, if_neg hfirst]

def innerEntries : List (Host × Host) := [(.text "b_1", .number (.int 1))]

def outerEntries : List (Host × Host) := [(.text "a", .dict innerEntries)]

def outerText : String := "\x7b\"a\": \x7b\"b_1\": 1\x7d\x7d"

theorem skipSpace_cons {c : Char} (h : Json.isSpace c = false) (rest : List Char) :
    Json.skipSpace (c :: rest) = c :: rest :=
  List.dropWhile_cons_of_neg (Bool.not_eq_true _ ▸ h)

/-- A dictionary of one member. -/
theorem value?_member {name : String} {text rest after : List Char} {h : Host} {n : Nat}
    (hname : Json.string? text = some (name, ':' :: ' ' :: rest))
    (hfront : Json.skipSpace rest = rest)
    (hvalue : Json.value? n rest = some (h, '\x7d' :: after)) :
    Json.value? (n + 2) ('\x7b' :: '"' :: text) = some (Host.dictOfNamed [(name, h)], after) := by
  have hspace : Json.skipSpace (' ' :: rest) = rest := hfront
  have hcolon := skipSpace_cons (by decide : Json.isSpace ':' = false) (' ' :: rest)
  have hclosing := skipSpace_cons (by decide : Json.isSpace '\x7d' = false) after
  have hopening := skipSpace_cons (by decide : Json.isSpace '"' = false) text
  have hmember : Json.members? (n + 1) [] ('"' :: text) = some ([(name, h)], after) := by
    simp only [Json.members?, hname, Option.bind_eq_bind, Option.bind_some, hcolon, hspace, hvalue,
      hclosing]
    rfl
  rw [Json.value?, hopening]
  exact congrArg (Option.map _) hmember

theorem value?_number (n : Nat) :
    Json.value? (n + 1) ['1', '\x7d', '\x7d'] = some (.number (.int 1), ['\x7d', '\x7d']) := by
  rw [Json.value?]
  · rfl
  all_goals simp

theorem read_outerText : Json.read outerText = .ok (.dict outerEntries) := by
  have hinner : Json.value? 33 "\x7b\"b_1\": 1\x7d\x7d".toList =
      some (.dict innerEntries, ['\x7d']) :=
    value?_member (rfl : Json.string? _ = some ("b_1", _)) rfl (value?_number 30)
  have houter : Json.value? 35 outerText.toList = some (.dict outerEntries, []) :=
    value?_member (rfl : Json.string? _ = some ("a", _)) rfl hinner
  have hspace : Json.skipSpace outerText.toList = outerText.toList := rfl
  have hsize : 2 * outerText.toList.length + 1 = 35 := rfl
  simp only [Json.read, hspace, hsize, houter]
  rfl

theorem load_outerText :
    load [("t.json", outerText)] "t.json" = .ok (.dict outerEntries) := by
  refine (load_eq_ok_iff (target_of_not_mem (by decide))).mpr ⟨by decide, by decide +kernel, ?_⟩
  exact ⟨["t.json"], outerText, by decide +kernel, congrArg some read_outerText⟩

theorem itemUnder?_outerEntries :
    itemUnder? outerEntries (.text "a") = some (.dict innerEntries) := by
  simp [outerEntries, itemUnder?, same]

theorem keysLead_number : KeysLead (.dict outerEntries) ["a", "b_1"] (.number (.int 1)) := by
  refine .through itemUnder?_outerEntries (.through (h := .number (.int 1)) ?_ (.here _))
  simp [innerEntries, itemUnder?, same]

theorem follow_load_ne_number :
    (Host.dict outerEntries).follow [.text "a", .text "b_1"] = .ok (.number (.int 1)) ∧
      load [("t.json", outerText)] (selector "t.json" ["a", "b_1"]) =
        .error (.unresolvedPath ["'a'", "'b_1'"] "'a'" none) := by
  obtain ⟨hfollow, -, hload⟩ :=
    follow_load_ne (by decide) load_outerText (by decide) keysLead_number
  exact ⟨hfollow, (hload (by decide)).2 (by decide)⟩

/-- Names behind a colon do not select from a file. -/
theorem not_load_selector :
    ¬ ∀ (files : Files) (file : String) (entries : List (Host × Host)) (names : List String)
      (part : Host), ':' ∉ file.toList → load files file = .ok (.dict entries) → names ≠ [] →
        (∀ name ∈ names, IsName name) → KeysLead (.dict entries) names part →
          load files (selector file names) = .ok part := by
  intro hall
  have hselected := hall [("t.json", outerText)] "t.json" _ ["a"] _ (by decide) load_outerText
    (List.cons_ne_nil _ _) (by decide) (.through itemUnder?_outerEntries (.here _))
  have htarget : target (selector "t.json" ["a"]) = ("t.json", some ["a"]) :=
    target_selector (by decide) (List.cons_ne_nil _ _) (by decide)
  rw [load_of_target (target_of_not_mem (by decide)) htarget (selector_ne _ _) load_outerText,
    outerEntries, select_dict] at hselected
  cases hselected

end Module

end SassData
