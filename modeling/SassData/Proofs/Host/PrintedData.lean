import SassData.Proofs.Host.StylePlans
import SassData.Proofs.Value.PlainValueText

/-!
# Printed data is read back

Data without floating-point numbers is converted at once, to a plain value, and the text of that
value in a declaration gives the variable the value again. In texts no backslash and no line break
may stand: between its marks a text keeps its backslashes, and a literal ends with its line.
-/

namespace SassData

set_option autoImplicit false

open Source (Written IsStringLiteral Lexes pushAll tokens)

/-! ## Declarations -/

namespace Value

/-- The text of a plain value, parentheses left out at the top, is read as its expression. -/
theorem exists_reading_css (v : Value) (h : v.IsPlain) :
    ∃ ts r, Lexes v.css.toList ts ∧ pushAll Source.Reading.push? .start ts = some r ∧
      r.finish? = some v.expr ∧ r.fault = none := by
  by_cases hp : inParens .comma v = true
  · match v with
    | list (v :: w :: rest) separator bracketed =>
      obtain ⟨rfl, rfl, hitems⟩ := h
      obtain ⟨tss, hl, hr⟩ := Source.exists_tokens (written_itemTexts (v :: w :: rest) hitems)
      obtain ⟨inner, operand, last, earlier, hread, hc, he⟩ :=
        Source.reads_items hr (List.cons_ne_nil _ _) (Or.inl rfl) []
      refine ⟨_, _, ?_, hread, ?_, rfl⟩
      · rw [toList_css_list_comma]
        exact Lexes.items hl (List.cons_ne_nil _ _)
      · cases earlier with
        | nil =>
          have := congrArg List.length he
          simp [exprs] at this
        | cons e earlier =>
          have hlist : (last :: e :: earlier).reverse = exprs (v :: w :: rest) := by
            rw [he]
            simp
          refine Source.Reading.finish?_of_closeItem hc ?_
          simp only [Source.opened, Source.Reading.closeCommas, hlist, expr, exprs]
  · obtain ⟨ts, hl, hr⟩ := written_itemText v h
    rw [itemText_of_not_inParens (by simpa using hp)] at hl
    obtain ⟨inner, operand, hread, hc⟩ := hr [] rfl
    exact ⟨ts, _, hl, hread, Source.Reading.finish?_of_closeItem hc rfl, rfl⟩

theorem readSheet_css (v : Value) (h : v.IsPlain) :
    Source.readSheet ("$data: " ++ v.css ++ ";") = .ok [.assign "data" v.expr []] := by
  obtain ⟨ts, r, hl, hread, hfinish, hfault⟩ := exists_reading_css v h
  have ht : tokens .statement ("$data: " ++ v.css ++ ";").toList =
      .variable "data" :: .symbol .colon :: (ts ++ [.symbol .semicolon]) := by
    have hv (y : List Char) : tokens .statement ("$data".toList ++ ':' :: y) =
        .variable "data" :: tokens (.expression false) (':' :: y) :=
      @Source.tokens_of_token .statement _ _ _ rfl rfl
    have he := hl false ';' [] Source.isBoundary_semicolon
    have hs : ("$data: " ++ v.css ++ ";").toList =
        "$data".toList ++ ':' :: ' ' :: (v.css.toList ++ [';']) := by
      simp
    rw [hs, hv, Source.tokens_colon, Source.tokens_space, he, Source.tokens_semicolon,
      Source.tokens_nil]
  rw [Source.readSheet_eq_ok_iff]
  refine ⟨⟨[.assign "data" v.expr []], .between, none⟩, ?_, rfl, rfl⟩
  have hn : Text.canonicalName "data" = "data" := by decide
  have hd : pushAll Source.SheetReading.push? .start [.variable "data", .symbol .colon] =
      some ⟨[], .inside (.assignment "data") .start, none⟩ := by
    simp [Source.pushAll, Source.SheetReading.push?, Source.SheetReading.start, hn]
  have hpush := @Source.pushAll_append _ Source.SheetReading.push? .start
    [.variable "data", .symbol .colon] (ts ++ [.symbol .semicolon])
  rw [ht]
  refine hpush.trans ?_
  rw [hd, Option.bind_some, Source.pushAll_append, Source.SheetReading.pushAll_inside hread,
    Option.bind_some, Source.pushAll_cons, Source.SheetReading.push?_semicolon hfinish, hfault]
  rfl

theorem exists_evaluateWith (scope : Scope) (n : Nat) :
    ∃ default, Evaluation.evaluateTo scope n = Evaluation.evaluateWith scope default := by
  cases n with
  | zero => exact ⟨_, rfl⟩
  | succ n => exact ⟨_, rfl⟩

theorem compile_css (v : Value) (h : v.IsPlain) :
    compile ("$data: " ++ v.css ++ ";") [] = .ok ⟨"", [("data", v.reread)], [], []⟩ := by
  have hrun : (Session.start []).evaluate v.expr = .ok (v.reread, []) := by
    rw [Session.evaluate, Evaluation.evaluate]
    obtain ⟨default, hd⟩ := exists_evaluateWith
      ⟨(Session.start []).functions, (Session.start []).assigned⟩
      (Evaluation.defaultCount (Session.start []).functions)
    rw [hd, evaluateWith_expr _ default v h]
    rfl
  have hstep : (Session.start []).step (.assign "data" v.expr []) =
      .ok ({ Session.start [] with assigned := [("data", v.reread)] }, none) := by
    simp only [Session.step, hrun]
    simp [hold_reread _ v h]
    exact ⟨rfl, rfl⟩
  have hfunctions : Registry.ofDeclarations [] = .ok [] := rfl
  have hall : (Session.start []).run [.assign "data" v.expr []] =
      ({ Session.start [] with assigned := [("data", v.reread)] }, .ok []) := by
    simp only [Session.run, hstep]
    rfl
  simp only [compile, readSheet_css v h, hfunctions, bind, Except.bind, hall]
  rfl

end Value

/-! ## Data -/

namespace Host

/-- A text that stands between marks as it is, but for the marks themselves. -/
def IsClean (text : List Char) : Prop := '\\' ∉ text ∧ '\n' ∉ text

instance (text : List Char) : Decidable (IsClean text) := inferInstanceAs (Decidable (_ ∧ _))

mutual

/-- Constants, integers and clean texts, lists of such data, and dictionaries of it whose keys are
clean texts that stay apart when they are quoted with a delimiter. -/
def IsPlainData (delimiter : String) : Host → Prop
  | null => True
  | bool _ => True
  | number m => ∃ k : Int, m = .int k
  | text s => IsClean s.toList
  | list items => AllPlainData delimiter items
  | tuple items => AllPlainData delimiter items
  | dict entries => entries ≠ [] ∧ EntriesPlainData delimiter entries ∧
      (entries.map fun entry => Text.unquote (Text.quote entry.1.keyName delimiter)).Nodup
  | _ => False

def AllPlainData (delimiter : String) : List Host → Prop
  | [] => True
  | h :: rest => IsPlainData delimiter h ∧ AllPlainData delimiter rest

def EntriesPlainData (delimiter : String) : List (Host × Host) → Prop
  | [] => True
  | (key, h) :: rest => (∃ s, key = text s ∧ IsClean s.toList) ∧ IsPlainData delimiter h ∧
      EntriesPlainData delimiter rest

end

/-- An escaped text goes on to the mark behind it and no further. -/
theorem afterString?_escape {mark : Char} (hm : Text.isMark mark = true) {text : List Char}
    (h : IsClean text) :
    Source.afterString? mark (Text.escape [mark] text ++ [mark]) = some [] := by
  have hmark := Text.ne_of_isMark hm
  induction text with
  | nil => simp [Text.escape_singleton_nil, Source.afterString?]
  | cons c rest ih =>
    obtain ⟨hb, hn⟩ := h
    simp only [List.mem_cons, not_or] at hb hn
    have ih := ih ⟨hb.2, hn.2⟩
    rw [Text.escape_singleton_cons]
    split
    · next he =>
      subst he
      simpa [Source.afterString?, Ne.symm hmark.1, hmark.2] using ih
    · next he =>
      cases hrest : Text.escape [mark] rest ++ [mark] with
      | nil => simp at hrest
      | cons d more =>
        rw [List.cons_append, hrest]
        rw [hrest] at ih
        simpa [Source.afterString?, Ne.symm he, Ne.symm hb.1, Ne.symm hn.1] using ih

theorem isClean_payload {text : List Char} (h : IsClean text) : IsClean (Text.payload text) := by
  unfold Text.payload
  split
  · next mark inner hu =>
    obtain ⟨-, rfl⟩ := Text.enclosed_of_unwrap? hu
    exact ⟨fun hb => h.1 (by simp [hb]), fun hn => h.2 (by simp [hn])⟩
  · exact h

def IsMarkDelimiter (delimiter : String) : Prop := delimiter = "'" ∨ delimiter = "\""

theorem isStringLiteral_quote {delimiter text : String} (hd : IsMarkDelimiter delimiter)
    (h : IsClean text.toList) : IsStringLiteral (Text.quote text delimiter) := by
  obtain ⟨mark, hm, hmark⟩ : ∃ mark, delimiter.toList = [mark] ∧ Text.isMark mark = true := by
    rcases hd with rfl | rfl
    · exact ⟨'\'', by decide, by decide⟩
    · exact ⟨'"', by decide, by decide⟩
  obtain ⟨own, ho, hown⟩ : ∃ own, Text.delimiterFor [mark] text.toList = [own] ∧
      Text.isMark own = true := by
    unfold Text.delimiterFor
    split
    · next own inner hu => exact ⟨own, rfl, (Text.enclosed_of_unwrap? hu).1⟩
    · exact ⟨mark, rfl, hmark⟩
  refine ⟨own, Text.escape [own] (Text.payload text.toList) ++ [own], hown, ?_,
    afterString?_escape hown (isClean_payload h)⟩
  simp [Text.quote, Text.wrap, hm, ho]

section Conversion

variable {options : ToStyle}

theorem keyValue_eq (hd : IsMarkDelimiter options.delimiter) (name : String) :
    keyValue options name = .string (Text.quote name options.delimiter) := by
  have : options.delimiter.isEmpty = false := by
    rcases hd with hd | hd <;> rw [hd] <;> decide
  simp [keyValue, this]

theorem pairsPlain_zip (hd : IsMarkDelimiter options.delimiter) {entries : List (Host × Host)}
    (h : EntriesPlainData options.delimiter entries) {vs : List Value} (hv : Value.AllPlain vs)
    (hl : vs.length = entries.length) :
    Value.PairsPlain ((entries.map fun (key, _) => keyValue options key.keyName).zip vs) ∧
      (((entries.map fun (key, _) => keyValue options key.keyName).zip vs).map fun pair =>
        pair.1.plainText) =
      entries.map fun entry => Text.unquote (Text.quote entry.1.keyName options.delimiter) := by
  induction entries generalizing vs with
  | nil => exact ⟨by simp [Value.PairsPlain], by simp⟩
  | cons entry rest ih =>
    obtain ⟨key, h'⟩ := entry
    obtain ⟨⟨s, rfl, hs⟩, -, hrest⟩ := h
    cases vs with
    | nil => cases hl
    | cons v vs =>
      obtain ⟨ihp, ihn⟩ := ih hrest hv.2 (by simpa using hl)
      have hk : (keyValue options s).plainText =
          Text.unquote (Text.quote s options.delimiter) := by
        rw [keyValue_eq hd, Value.plainText]
      refine ⟨⟨⟨_, keyValue_eq hd _, isStringLiteral_quote hd hs⟩, hv.1, ihp⟩, ?_⟩
      rw [List.map_cons, List.zip_cons_cons, List.map_cons, ihn, List.map_cons]
      exact congrArg (· :: _) hk

theorem prospect_listPlan {items : List (Plan Host)} {vs : List Value}
    (h : Plan.prospects items = .value (vs.map Host.value)) :
    (listPlan items).prospect = .value (.value (.list vs .comma false)) := by
  simp only [listPlan, Plan.prospect, h, map_styleValue, Plan.Prospect.ofOutcome]

theorem prospect_mapPlan {keys : List Value} {items : List (Plan Host)} {vs : List Value}
    (h : Plan.prospects items = .value (vs.map Host.value)) :
    (mapPlan keys items).prospect = .value (.value (.map (keys.zip vs))) := by
  simp only [mapPlan, Plan.prospect, h, map_styleValue, Plan.Prospect.ofOutcome]

mutual

theorem prospect_planWith (hr : options.readLiterals = false)
    (hd : IsMarkDelimiter options.delimiter) (handed : Host → Plan Host) (h : Host)
    (hp : h.IsPlainData options.delimiter) :
    ∃ v, (planWith options handed h).prospect = .value (.value v) ∧ v.IsPlain := by
  match h with
  | null => exact ⟨.null, rfl, trivial⟩
  | bool b => exact ⟨.bool b, rfl, trivial⟩
  | number m =>
    obtain ⟨k, rfl⟩ := hp
    exact ⟨.number (.ofInt k), rfl, k, rfl⟩
  | text s =>
    refine ⟨.string (Text.quote s options.delimiter), ?_, isStringLiteral_quote hd hp⟩
    have ht : ofText options s = .ok (.string (Text.quote s options.delimiter)) := by
      simp only [ofText, hr]
      rfl
    rw [planWith, ht]
    rfl
  | list items =>
    obtain ⟨vs, hv, -, hall⟩ := prospects_planItems hr hd handed items hp
    exact ⟨.list vs .comma false, prospect_listPlan hv, rfl, rfl, hall⟩
  | tuple items =>
    obtain ⟨vs, hv, -, hall⟩ := prospects_planItems hr hd handed items hp
    exact ⟨.list vs .comma false, prospect_listPlan hv, rfl, rfl, hall⟩
  | dict entries =>
    obtain ⟨hne, he, hn⟩ := hp
    obtain ⟨vs, hv, hl, hall⟩ := prospects_planEntries hr hd handed entries he
    obtain ⟨hpairs, hnames⟩ := pairsPlain_zip hd he hall hl
    refine ⟨.map _, prospect_mapPlan hv, ?_, hpairs, by rwa [hnames]⟩
    intro hnil
    rw [hnil] at hnames
    exact hne (List.map_eq_nil_iff.mp hnames.symm)
  | fraction .. | record _ | indexable _ | value _ | measured _ | separator _ | callable _
  | future _ | foreign => exact hp.elim

theorem prospects_planItems (hr : options.readLiterals = false)
    (hd : IsMarkDelimiter options.delimiter) (handed : Host → Plan Host) (items : List Host)
    (hp : AllPlainData options.delimiter items) :
    ∃ vs, Plan.prospects (planItems options handed items) = .value (vs.map Host.value) ∧
      vs.length = items.length ∧ Value.AllPlain vs := by
  match items with
  | [] => exact ⟨[], rfl, rfl, trivial⟩
  | h :: rest =>
    obtain ⟨v, hv, hplain⟩ := prospect_planWith hr hd handed h hp.1
    obtain ⟨vs, hvs, hl, hall⟩ := prospects_planItems hr hd handed rest hp.2
    exact ⟨v :: vs, prospects_cons hv hvs, by simp [hl], hplain, hall⟩

theorem prospects_planEntries (hr : options.readLiterals = false)
    (hd : IsMarkDelimiter options.delimiter) (handed : Host → Plan Host)
    (entries : List (Host × Host)) (hp : EntriesPlainData options.delimiter entries) :
    ∃ vs, Plan.prospects (planEntries options handed entries) = .value (vs.map Host.value) ∧
      vs.length = entries.length ∧ Value.AllPlain vs := by
  match entries with
  | [] => exact ⟨[], rfl, rfl, trivial⟩
  | (key, h) :: rest =>
    obtain ⟨v, hv, hplain⟩ := prospect_planWith hr hd handed h hp.2.1
    obtain ⟨vs, hvs, hl, hall⟩ := prospects_planEntries hr hd handed rest hp.2.2
    exact ⟨v :: vs, prospects_cons hv hvs, by simp [hl], hplain, hall⟩

end

/-- What is printed of plain data in a declaration gives the variable the same value. -/
theorem compile_css_toStyle (hr : options.readLiterals = false)
    (hd : IsMarkDelimiter options.delimiter) (h : Host) (hp : h.IsPlainData options.delimiter) :
    ∃ v, (∀ s : Future.Store Host, s.launch (toStyle options h) = (s, .now (.value v))) ∧
      ∃ compiled w, compile ("$data: " ++ v.css ++ ";") [] = .ok compiled ∧
        compiled.assigned.get? "data" = some w ∧ w.same v = true := by
  obtain ⟨v, hv, hplain⟩ := prospect_planWith hr hd (planTo options 1) h hp
  exact ⟨v, launch_of_prospect hv, _, v.reread, v.compile_css hplain, rfl, v.same_reread hplain⟩

end Conversion

/-- Texts with an apostrophe and in marks already, a list of one item that is a map's value, an
empty list and a negative number. -/
def nested : Host :=
  .dict [(.text "it's", .list [.number (.int (-3))]), (.text "\"a\"", .tuple [.list [], .null])]

def nestedValue : Value :=
  .map [(.string "'it\\'s'", .list [.number (.ofMagnitude (.int (-3)))] .comma false),
    (.string "\"a\"", .list [.list [] .comma false, .null] .comma false)]

theorem compile_css_toStyle_nested :
    (∀ s : Future.Store Host, s.launch (toStyle .standard nested) =
      (s, .now (.value nestedValue))) ∧
      ∃ compiled w, compile "$data: ('it\\'s': (-3,), \"a\": ((), null));" [] = .ok compiled ∧
        compiled.assigned.get? "data" = some w ∧ w.same nestedValue = true := by
  obtain ⟨v, hlaunch, hcompiled⟩ := @compile_css_toStyle .standard rfl (Or.inl rfl) nested
    ⟨List.cons_ne_nil _ _,
      ⟨⟨_, rfl, by decide⟩, ⟨⟨-3, rfl⟩, trivial⟩, ⟨_, rfl, by decide⟩, ⟨trivial, trivial, trivial⟩,
        trivial⟩,
      by decide⟩
  have hvalue : Future.Store.empty.launch (toStyle .standard nested) =
      (Future.Store.empty, .now (.value nestedValue)) := rfl
  rw [hlaunch] at hvalue
  cases hvalue
  exact ⟨hlaunch, hcompiled⟩

end Host

end SassData
