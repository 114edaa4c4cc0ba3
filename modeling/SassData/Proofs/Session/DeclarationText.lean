import SassData.Proofs.Session.SessionSteps

/-!
# What declarations show

A declaration is left out for null and refused for a map and for an empty list without brackets.
Nothing looks at the items of a list in that way, so a value that is not refused may have maps and
empty lists among them, may have nothing but nulls, and may show nothing at all.
-/

namespace SassData

set_option autoImplicit false

namespace Value

/-- Maps and empty lists without brackets, which are no values of CSS. -/
def isUnwritable : Value → Bool
  | map _ | list [] _ false => true
  | _ => false

mutual

/-- Whether a value of that kind is there, at any depth of the items of lists. -/
def hasUnwritable : Value → Bool
  | list items separator bracketed =>
    (list items separator bracketed).isUnwritable || anyHasUnwritable items
  | v => v.isUnwritable

def anyHasUnwritable : List Value → Bool
  | [] => false
  | item :: rest => item.hasUnwritable || anyHasUnwritable rest

end

def isAllNull : Value → Bool
  | list (item :: rest) _ _ => item.isNull && rest.all isNull
  | _ => false

mutual

/-- Whether a value shows nothing: a text without characters, or a list without brackets whose items
are all null, but for one that shows nothing either. -/
def isBlank : Value → Bool
  | string text | custom text _ => text == ""
  | color c => c.spelling == some ""
  | list items _ false => areBlank items
  | _ => false

def areBlank : List Value → Bool
  | [] => true
  | item :: rest => if item.isNull then areBlank rest else item.isBlank && rest.all isNull

end

end Value

/-! ## Texts that are empty -/

namespace Text

theorem ite_ne_empty {p : Prop} [Decidable p] {s t : String} (hs : s ≠ "") (ht : t ≠ "") :
    (if p then s else t) ≠ "" := by
  split
  · exact hs
  · exact ht

theorem intercalate_eq_empty_iff {separator : String} (hs : separator ≠ "") {texts : List String} :
    separator.intercalate texts = "" ↔ texts = [] ∨ texts = [""] := by
  cases texts with
  | nil => simp
  | cons text rest =>
    cases rest with
    | nil => simp
    | cons next rest =>
      rw [String.intercalate_cons_cons, String.append_eq_empty_iff, String.append_eq_empty_iff]
      exact iff_of_false (fun h => hs h.1.2) nofun

end Text

namespace Number

theorem intCast_ne_empty (n : Int) : toString n ≠ "" := by
  rw [Int.toString_eq_repr, Int.repr_eq_if]
  split
  · exact Nat.repr_ne_empty
  · exact fun h => absurd (String.append_eq_empty_iff.mp h).1 (by decide)

theorem fixedText_ne_empty (negative : Bool) (n : Nat) : fixedText negative n ≠ "" := by
  have hwhole : toString (n / tenPow places) ≠ "" := Nat.repr_ne_empty
  intro h
  have hchars := congrArg String.toList h
  simp only [fixedText, String.toList_ofList] at hchars
  split at hchars
  · cases hchars
  · have hnil := (List.append_eq_nil_iff.mp hchars).1
    exact hwhole (String.toList_eq_nil_iff.mp hnil)

theorem Binary64.styleText_ne_empty (x : Binary64) : x.styleText ≠ "" := by
  cases x with
  | nan s i => exact (by decide : "NaN" ≠ "")
  | infinity s => cases s <;> decide
  | finite s u hu =>
    have hwhole : toString (roundQuotient u unitsInOne) ≠ "" := Nat.repr_ne_empty
    have hnegative : "-" ++ toString (roundQuotient u unitsInOne) ≠ "" :=
      fun h => hwhole (String.append_eq_empty_iff.mp h).2
    have hfixed (n : Nat) := fixedText_ne_empty s n
    simp only [Binary64.styleText]
    exact Text.ite_ne_empty (Text.ite_ne_empty hnegative hwhole) (hfixed _)

theorem css_ne_empty (n : Number) : n.css ≠ "" := by
  intro h
  have hmagnitude := (String.append_eq_empty_iff.mp h).1
  cases hm : n.magnitude with
  | int k =>
    rw [hm] at hmagnitude
    exact intCast_ne_empty k hmagnitude
  | float x =>
    rw [hm] at hmagnitude
    exact x.styleText_ne_empty hmagnitude

end Number

theorem Color.css_eq_empty_iff {c : Color} : c.css = "" ↔ c.spelling = some "" := by
  unfold Color.css
  cases c.spelling with
  | some text => exact (Option.some_inj).symm
  | none =>
    refine iff_of_false ?_ nofun
    dsimp only
    split
    · intro h
      have hchars := congrArg String.toList h
      rw [String.toList_ofList] at hchars
      cases hchars
    · simp only [String.append_eq_empty_iff]
      exact fun h => absurd h.2 (by decide)

/-! ## Values that show nothing -/

namespace Session

open Value (isNull isBlank areBlank)

theorem joiner_ne_empty (separator : Separator) : separator.joiner ≠ "" := by
  cases separator <;> decide

theorem declarationTexts_cons (item : Value) (rest : List Value) :
    declarationTexts (item :: rest) = if item.isNull then declarationTexts rest else
      declarationText item :: declarationTexts rest := by
  cases item <;> rfl

theorem declarationTexts_eq_nil_iff {items : List Value} :
    declarationTexts items = [] ↔ items.all isNull = true := by
  induction items with
  | nil => exact iff_of_true rfl rfl
  | cons item rest ih =>
    rw [declarationTexts_cons, List.all_cons]
    split
    · next hn => rw [hn, Bool.true_and, ih]
    · next hn => exact iff_of_false nofun fun h => hn (Bool.and_eq_true_iff.mp h).1

mutual

theorem declarationText_eq_empty_iff (v : Value) :
    declarationText v = "" ↔ v.isBlank = true := by
  match v with
  | .null => exact iff_of_false (by decide) Bool.false_ne_true
  | .bool b => exact iff_of_false (by cases b <;> decide) Bool.false_ne_true
  | .number n => exact iff_of_false n.css_ne_empty Bool.false_ne_true
  | .color c =>
    rw [isBlank, beq_iff_eq]
    exact Color.css_eq_empty_iff
  | .string text =>
    rw [isBlank, beq_iff_eq]
    rfl
  | .custom text identity =>
    rw [isBlank, beq_iff_eq]
    rfl
  | .map pairs =>
    refine iff_of_false (fun h => ?_) Bool.false_ne_true
    simp only [declarationText, Value.css, Value.mapText, String.append_eq_empty_iff] at h
    exact absurd h.2 (by decide)
  | .list items separator true =>
    refine iff_of_false (fun h => ?_) Bool.false_ne_true
    simp only [declarationText, if_true, String.append_eq_empty_iff] at h
    exact absurd h.2 (by decide)
  | .list items separator false =>
    simp only [declarationText, Bool.false_eq_true, if_false, isBlank,
      Text.intercalate_eq_empty_iff (joiner_ne_empty separator)]
    exact declarationTexts_blank_iff items

theorem declarationTexts_blank_iff (items : List Value) :
    declarationTexts items = [] ∨ declarationTexts items = [""] ↔ areBlank items = true := by
  match items with
  | [] => exact iff_of_true (Or.inl rfl) rfl
  | item :: rest =>
    rw [declarationTexts_cons, areBlank]
    split
    · exact declarationTexts_blank_iff rest
    · rw [Bool.and_eq_true, ← declarationText_eq_empty_iff item, ← declarationTexts_eq_nil_iff,
        List.cons.injEq]
      exact or_iff_right nofun

end

/-! ## Declared values -/

theorem declared?_eq_error_iff {v : Value} :
    (∃ failure, declared? v = .error failure ∧ failure.isCompileError = true) ↔
      v.isUnwritable = true := by
  constructor
  · rintro ⟨failure, h, -⟩
    unfold declared? at h
    split at h <;> cases h <;> rfl
  · intro h
    unfold Value.isUnwritable at h
    split at h
    · exact ⟨_, rfl, rfl⟩
    · exact ⟨_, rfl, rfl⟩
    · cases h

theorem declared?_eq_none_iff {v : Value} : declared? v = .ok none ↔ v = .null := by
  constructor
  · intro h
    unfold declared? at h
    split at h <;> cases h
    rfl
  · rintro rfl
    rfl

theorem declared?_eq_some_iff {v : Value} {text : String} :
    declared? v = .ok (some text) ↔
      v ≠ .null ∧ v.isUnwritable = false ∧ text = declarationText v := by
  have hshown {w : Value} (hd : declared? w = .ok (some (declarationText w))) (hn : w ≠ .null)
      (hu : w.isUnwritable = false) : declared? w = .ok (some text) ↔
        w ≠ .null ∧ w.isUnwritable = false ∧ text = declarationText w := by
    rw [hd, Except.ok.injEq, Option.some_inj, eq_comm]
    exact ⟨fun h => ⟨hn, hu, h⟩, fun h => h.2.2⟩
  cases v with
  | null => exact iff_of_false nofun fun h => h.1 rfl
  | map pairs => exact iff_of_false nofun fun h => Bool.noConfusion h.2.1
  | list items separator bracketed =>
    cases items with
    | cons item rest => exact hshown rfl nofun rfl
    | nil =>
      cases bracketed with
      | false => exact iff_of_false nofun fun h => Bool.noConfusion h.2.1
      | true => exact hshown rfl nofun rfl
  | bool | number | color | string | custom => exact hshown rfl nofun rfl

end Session

namespace Value

/-- A declaration of the value shows CSS: some text, and of a value without maps and empty lists in
it that is not made of nulls only. -/
structure IsCss (v : Value) (text : String) : Prop where
  shown : text ≠ ""
  writable : v.hasUnwritable = false
  something : v.isAllNull = false

/-- Whether a value gets past the check that only looks at the value itself: it shows nothing, it is
a list of nulls, or what is no value of CSS is somewhere in its items. -/
def slips : Value → Bool
  | list items separator bracketed => (list items separator bracketed).isBlank ||
    (list items separator bracketed).isAllNull || anyHasUnwritable items
  | v => v.isBlank

theorem isCss_iff {v : Value} {text : String} (h : Session.declared? v = .ok (some text)) :
    v.IsCss text ↔ v.slips = false := by
  obtain ⟨-, hwritable, rfl⟩ := Session.declared?_eq_some_iff.mp h
  have hshown : Session.declarationText v ≠ "" ↔ v.isBlank = false := by
    rw [ne_eq, Session.declarationText_eq_empty_iff, Bool.not_eq_true]
  have hparts : v.IsCss (Session.declarationText v) ↔
      v.isBlank = false ∧ v.hasUnwritable = false ∧ v.isAllNull = false := by
    rw [← hshown]
    exact ⟨fun ⟨a, b, c⟩ => ⟨a, b, c⟩, fun ⟨a, b, c⟩ => ⟨a, b, c⟩⟩
  rw [hparts]
  cases v with
  | list items separator bracketed =>
    simp only [slips, hasUnwritable, hwritable, Bool.false_or, Bool.or_eq_false_iff]
    exact ⟨fun h => ⟨⟨h.1, h.2.2⟩, h.2.1⟩, fun h => ⟨h.1.1, h.2, h.1.2⟩⟩
  | null | bool | number | color | string | map | custom =>
    exact and_iff_left ⟨hwritable, rfl⟩

end Value

/-! ## Runs -/

namespace Session

def declaredValues (s : Session) : List (String × Expr) → List (String × Value)
  | [] => []
  | (property, e) :: rest =>
    match s.evaluate e with
    | .ok (v, trace) => (property, v) :: declaredValues { s with trace := trace } rest
    | .error _ => []

def ruleValues (s : Session) : List Statement → List (String × List (String × Value))
  | [] => []
  | statement :: rest =>
    match s.step statement with
    | .ok (next, _) =>
      match statement with
      | .rule selector declarations =>
        (selector, s.declaredValues declarations) :: next.ruleValues rest
      | _ => next.ruleValues rest
    | .error _ => []

def line? : String × Value → Option String
  | (property, v) =>
    match declared? v with
    | .ok (some text) => some ("  " ++ property ++ ": " ++ text ++ ";")
    | _ => none

def ruleText? : String × List (String × Value) → Option String
  | (selector, values) => blockText? selector (values.filterMap line?)

theorem line?_eq_none_iff {declaration : String × Value}
    (h : declaration.2.isUnwritable = false) :
    line? declaration = none ↔ declaration.2 = .null := by
  obtain ⟨property, v⟩ := declaration
  constructor
  · intro hline
    refine Classical.byContradiction fun hn => ?_
    have hshown : declared? v = .ok (some (declarationText v)) :=
      declared?_eq_some_iff.mpr ⟨hn, h, rfl⟩
    simp only [line?, hshown] at hline
    cases hline
  · rintro rfl
    rfl

theorem lines_eq {s last : Session} {declarations : List (String × Expr)} {lines : List String}
    (h : s.declarationLines declarations = .ok (lines, last)) :
    lines = (s.declaredValues declarations).filterMap line? ∧
      ∀ declaration ∈ s.declaredValues declarations, declaration.2.isUnwritable = false := by
  induction declarations generalizing s lines last with
  | nil =>
    cases h
    exact ⟨rfl, nofun⟩
  | cons declaration rest ih =>
    obtain ⟨property, e⟩ := declaration
    rw [declarationLines] at h
    obtain ⟨⟨v, trace⟩, hv, h⟩ := Outcome.bind_eq_ok_iff.mp h
    obtain ⟨text, htext, h⟩ := Outcome.bind_eq_ok_iff.mp h
    obtain ⟨⟨more, next⟩, hrest, h⟩ := Outcome.bind_eq_ok_iff.mp h
    obtain ⟨rfl, hmore⟩ := @ih { s with trace := trace } next more hrest
    have hvalues : s.declaredValues ((property, e) :: rest) =
        (property, v) :: declaredValues { s with trace := trace } rest := by
      simp only [declaredValues, hv]
    rw [hvalues, List.forall_mem_cons]
    cases text with
    | none =>
      cases h
      have hline : line? (property, v) = none := by simp only [line?, htext]
      rw [List.filterMap_cons_none hline]
      obtain rfl := declared?_eq_none_iff.mp htext
      exact ⟨rfl, rfl, hmore⟩
    | some text =>
      cases h
      have hline : line? (property, v) = some ("  " ++ property ++ ": " ++ text ++ ";") := by
        simp only [line?, htext]
      rw [List.filterMap_cons_some hline]
      exact ⟨rfl, (declared?_eq_some_iff.mp htext).2.1, hmore⟩

/-- Only rules write, and they write the lines of their declarations. -/
theorem ruleValues_cons {s next : Session} {statement : Statement} {text : Option String}
    (h : s.step statement = .ok (next, text)) (rest : List Statement) :
    (text = none ∧ s.ruleValues (statement :: rest) = next.ruleValues rest) ∨
      ∃ rule, text = ruleText? rule ∧
        s.ruleValues (statement :: rest) = rule :: next.ruleValues rest ∧
        ∀ declaration ∈ rule.2, declaration.2.isUnwritable = false := by
  simp only [ruleValues, h]
  cases statement with
  | rule selector declarations =>
    obtain ⟨⟨lines, after⟩, hlines, h⟩ := Outcome.bind_eq_ok_iff.mp h
    cases h
    obtain ⟨rfl, hvalues⟩ := lines_eq hlines
    exact Or.inr ⟨(selector, s.declaredValues declarations), rfl, rfl, hvalues⟩
  | assign name e flags =>
    rw [step] at h
    split at h
    · cases h
      exact Or.inl ⟨rfl, rfl⟩
    · obtain ⟨_, -, h⟩ := Outcome.bind_eq_ok_iff.mp h
      cases h
      exact Or.inl ⟨rfl, rfl⟩
  | debug e =>
    obtain ⟨_, -, h⟩ := Outcome.bind_eq_ok_iff.mp h
    cases h
    exact Or.inl ⟨rfl, rfl⟩
  | error e =>
    obtain ⟨_, -, h⟩ := Outcome.bind_eq_ok_iff.mp h
    cases h

theorem blocks_eq {s last : Session} {statements : List Statement} {blocks : List String}
    (h : s.run statements = (last, .ok blocks)) :
    blocks = (s.ruleValues statements).filterMap ruleText? ∧
      ∀ rule ∈ s.ruleValues statements, ∀ declaration ∈ rule.2,
        declaration.2.isUnwritable = false := by
  induction statements generalizing s last blocks with
  | nil =>
    cases h
    exact ⟨rfl, nofun⟩
  | cons statement rest ih =>
    rw [run] at h
    split at h
    · cases h
    · next next text hstep =>
      have hblocks : (next.run rest).2.map (text.toList ++ ·) = .ok blocks := congrArg Prod.snd h
      obtain ⟨more, hmore, rfl⟩ : ∃ more, (next.run rest).2 = .ok more ∧
          blocks = text.toList ++ more := by
        cases hrun : (next.run rest).2 with
        | error failure =>
          rw [hrun] at hblocks
          cases hblocks
        | ok more =>
          rw [hrun] at hblocks
          exact ⟨more, rfl, (Except.ok.inj hblocks).symm⟩
      obtain ⟨rfl, hrest⟩ := @ih next (next.run rest).1 more (Prod.ext rfl hmore)
      rcases ruleValues_cons hstep rest with ⟨rfl, hvalues⟩ | ⟨rule, rfl, hvalues, hrule⟩
      · rw [hvalues]
        exact ⟨rfl, hrest⟩
      · rw [hvalues, List.filterMap_cons, List.forall_mem_cons]
        refine ⟨?_, hrule, hrest⟩
        cases ruleText? rule <;> rfl

end Session

/-- A map or an empty list without brackets is refused and null is left out. The style sheet that
comes of a compilation has a line for every other value of a declaration, and the line shows CSS
exactly if the value does not slip through. -/
theorem compile_isCss_iff (source : String) (functions : Declarations) :
    (∀ v, (∃ failure, Session.declared? v = .error failure ∧ failure.isCompileError = true) ↔
      v.isUnwritable = true) ∧
    ∀ compiled, compile source functions = .ok compiled →
      ∃ statements registry, Source.readSheet source = .ok statements ∧
        Registry.ofDeclarations functions = .ok registry ∧
        compiled.css = Session.sheetText
          (((Session.start registry).ruleValues statements).filterMap Session.ruleText?) ∧
        ∀ rule ∈ (Session.start registry).ruleValues statements, ∀ declaration ∈ rule.2,
          declaration.2.isUnwritable = false ∧
          (Session.line? declaration = none ↔ declaration.2 = .null) ∧
          ∀ text, Session.declared? declaration.2 = .ok (some text) →
            (declaration.2.IsCss text ↔ declaration.2.slips = false) := by
  refine ⟨fun v => Session.declared?_eq_error_iff, ?_⟩
  intro compiled h
  obtain ⟨statements, hread, h⟩ := Outcome.bind_eq_ok_iff.mp h
  obtain ⟨registry, hfunctions, h⟩ := Outcome.bind_eq_ok_iff.mp h
  cases hrun : (Session.start registry).run statements with
  | mk last outcome =>
    rw [hrun] at h
    obtain ⟨blocks, rfl, h⟩ := Outcome.bind_eq_ok_iff.mp h
    cases h
    obtain ⟨rfl, hvalues⟩ := Session.blocks_eq hrun
    refine ⟨statements, registry, hread, hfunctions, rfl, fun rule hrule declaration hd => ?_⟩
    have hwritable := hvalues rule hrule declaration hd
    refine ⟨hwritable, Session.line?_eq_none_iff hwritable, fun text => Value.isCss_iff⟩

/-- Nulls are left out, of a list and of a rule. -/
theorem compile_isCss_iff_nulls :
    ∃ compiled, compile "a \x7b b: 1px [c, null]; d: null; \x7d" [] = .ok compiled ∧
      compiled.css = "a \x7b\n  b: 1px [c];\n\x7d\n" ∧
      ∃ statements registry,
        Source.readSheet "a \x7b b: 1px [c, null]; d: null; \x7d" = .ok statements ∧
        Registry.ofDeclarations [] = .ok registry ∧
        ∀ rule ∈ (Session.start registry).ruleValues statements, ∀ declaration ∈ rule.2,
          ∀ text, Session.declared? declaration.2 = .ok (some text) →
            (declaration.2.IsCss text ↔ declaration.2.slips = false) := by
  have hrun : ∃ compiled, compile "a \x7b b: 1px [c, null]; d: null; \x7d" [] = .ok compiled ∧
      (compiled.css == "a \x7b\n  b: 1px [c];\n\x7d\n") = true := by decide +kernel
  obtain ⟨compiled, h, hcss⟩ := hrun
  obtain ⟨statements, registry, hread, hfunctions, -, hall⟩ := (compile_isCss_iff _ _).2 compiled h
  exact ⟨compiled, h, beq_iff_eq.mp hcss, statements, registry, hread, hfunctions,
    fun rule hr declaration hd => (hall rule hr declaration hd).2.2⟩

/-- A map that is an item of a list is written out. -/
theorem not_isCss_map_item :
    ¬ ∀ source compiled, compile source [] = .ok compiled →
      ∀ statements, Source.readSheet source = .ok statements →
      ∀ rule ∈ (Session.start []).ruleValues statements, ∀ declaration ∈ rule.2,
      ∀ text, Session.declared? declaration.2 = .ok (some text) → declaration.2.IsCss text := by
  intro hall
  have hcompile : ∃ compiled, compile "a \x7b b: 1 (c: d); \x7d" [] = .ok compiled ∧
      (compiled.css == "a \x7b\n  b: 1 (c: d);\n\x7d\n") = true := by decide +kernel
  have hvalues : ∃ statements, Source.readSheet "a \x7b b: 1 (c: d); \x7d" = .ok statements ∧
      (((Session.start []).ruleValues statements).any fun rule => rule.2.any fun declaration =>
        declaration.2.hasUnwritable && (Session.line? declaration).isSome) = true := by
    decide +kernel
  obtain ⟨compiled, h, -⟩ := hcompile
  obtain ⟨statements, hread, hany⟩ := hvalues
  obtain ⟨rule, hrule, hany⟩ := List.any_eq_true.mp hany
  obtain ⟨⟨property, v⟩, hd, hv⟩ := List.any_eq_true.mp hany
  obtain ⟨hunwritable, hline⟩ := Bool.and_eq_true_iff.mp hv
  cases hdeclared : Session.declared? v with
  | error failure =>
    simp only [Session.line?, hdeclared] at hline
    cases hline
  | ok text? =>
    cases text? with
    | none =>
      simp only [Session.line?, hdeclared] at hline
      cases hline
    | some text =>
      have hcss := hall _ compiled h statements hread rule hrule _ hd text hdeclared
      rw [hcss.writable] at hunwritable
      cases hunwritable

end SassData
