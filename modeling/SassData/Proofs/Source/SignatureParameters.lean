import Mathlib.Data.Option.Basic
import SassData.Engine.Signature
import SassData.Proofs.Session.SessionSteps
import SassData.Proofs.Source.BlankTrimming

/-!
# Signatures cut at their commas

The text of a signature is cut where a comma stands outside brackets and marks, and there a mark
stands for itself behind a backslash too. So the cutting sees strings where the grammar sees them as
long as none has its own mark behind a backslash, and then each parameter is read as it was
declared. In general it is, for all of them together, exactly if the cutting finds no comma to cut
at inside a default and has come out of all brackets and marks at the end of each default but the
last.
-/

namespace SassData.Signature

set_option autoImplicit false

open Source (Spot IsNested turnAt readExpr)

/-! ## Cutting -/

/-- What is open where a text is being cut: a mark, and some brackets. -/
structure Cursor where
  mark : Option Char
  depth : Int
  deriving DecidableEq

namespace Cursor

def free : Cursor := ⟨none, 0⟩

/-- Goes past a character, unless the text is cut there. -/
def step? : Cursor → Char → Option Cursor
  | ⟨some mark, depth⟩, c => some ⟨if c == mark then none else some mark, depth⟩
  | ⟨none, depth⟩, c =>
    if Text.isMark c then some ⟨some c, depth⟩
    else if c == ',' && depth == 0 then none
    else some ⟨none, depth + turnAt c⟩

def along? (s : Cursor) (text : List Char) : Option Cursor := text.foldlM step? s

variable {s s' : Cursor} {c : Char} {x y current rest : List Char}

theorem along?_append (s : Cursor) (x y : List Char) :
    s.along? (x ++ y) = (s.along? x).bind fun s => s.along? y := by
  simp [along?]

theorem step?_eq_none (h : s.step? c = none) : s = free ∧ c = ',' := by
  obtain ⟨_ | mark, depth⟩ := s
  · simp only [step?] at h
    split at h
    · cases h
    · split at h
      · next hc =>
        simp only [Bool.and_eq_true, beq_iff_eq] at hc
        rw [hc.1, hc.2]
        exact ⟨rfl, rfl⟩
      · cases h
  · cases h

theorem splitFrom_step? (h : s.step? c = some s') (current rest : List Char) :
    splitFrom s.mark s.depth current (c :: rest) =
      splitFrom s'.mark s'.depth (c :: current) rest := by
  obtain ⟨_ | mark, depth⟩ := s
  · simp only [step?] at h
    rw [splitFrom]
    by_cases hm : Text.isMark c = true
    · rw [if_pos hm] at h ⊢
      cases h
      rfl
    · rw [if_neg hm] at h ⊢
      by_cases hopen : (c == '(' || c == '[') = true
      · have hcomma : ¬ (c == ',' && depth == 0) = true := by
          simp only [Bool.or_eq_true, beq_iff_eq] at hopen
          rcases hopen with rfl | rfl <;> simp
        rw [if_neg hcomma] at h
        rw [if_pos hopen]
        cases h
        simp only [turnAt, hopen, if_true]
      · by_cases hclose : (c == ')' || c == ']') = true
        · have hcomma : ¬ (c == ',' && depth == 0) = true := by
            simp only [Bool.or_eq_true, beq_iff_eq] at hclose
            rcases hclose with rfl | rfl <;> simp
          rw [if_neg hcomma] at h
          rw [if_neg hopen, if_pos hclose]
          cases h
          simp only [turnAt, hopen, hclose, if_true]
          rfl
        · rw [if_neg hopen, if_neg hclose]
          split at h
          · cases h
          · next hcomma =>
            rw [if_neg hcomma]
            cases h
            simp only [turnAt, hopen, hclose, if_false, Int.add_zero, Bool.false_eq_true]
  · cases h
    rfl

theorem splitFrom_along? (h : s.along? x = some s') (current rest : List Char) :
    splitFrom s.mark s.depth current (x ++ rest) =
      splitFrom s'.mark s'.depth (x.reverse ++ current) rest := by
  induction x generalizing s current with
  | nil =>
    cases h
    rfl
  | cons c x ih =>
    obtain ⟨next, hnext, h⟩ := Option.bind_eq_some_iff.mp h
    rw [List.cons_append, splitFrom_step? hnext, ih h, List.reverse_cons, List.append_assoc]
    rfl

theorem splitFrom_comma (current rest : List Char) :
    splitFrom none 0 current (',' :: rest) = current.reverse :: splitFrom none 0 [] rest := rfl

theorem exists_comma (h : s.along? x = none) :
    ∃ before after, x = before ++ ',' :: after ∧ s.along? before = some free := by
  induction x generalizing s with
  | nil => cases h
  | cons c x ih =>
    cases hstep : s.step? c with
    | none =>
      obtain ⟨rfl, rfl⟩ := step?_eq_none hstep
      exact ⟨[], x, rfl, rfl⟩
    | some next =>
      have hrest : next.along? x = none := by
        have hbind : (s.step? c).bind (fun s => s.along? x) = none := h
        rwa [hstep] at hbind
      obtain ⟨before, after, rfl, hbefore⟩ := ih hrest
      refine ⟨c :: before, after, rfl, ?_⟩
      have hbind : s.along? (c :: before) = (s.step? c).bind fun s => s.along? before := rfl
      rw [hbind, hstep]
      exact hbefore

theorem exists_first (s : Cursor) {current : List Char} (h : current.all Text.isBlank = false)
    (rest : List Char) :
    ∃ x pieces, splitFrom s.mark s.depth current rest = (current.reverse ++ x) :: pieces := by
  induction rest generalizing s current with
  | nil =>
    refine ⟨[], [], ?_⟩
    rw [splitFrom, h, List.append_nil]
    rfl
  | cons c rest ih =>
    cases hstep : s.step? c with
    | none =>
      obtain ⟨rfl, rfl⟩ := step?_eq_none hstep
      exact ⟨[], _, by rw [List.append_nil]; rfl⟩
    | some next =>
      have hcurrent : (c :: current).all Text.isBlank = false := by
        rw [List.all_cons, h, Bool.and_false]
      obtain ⟨x, pieces, hx⟩ := ih next hcurrent
      refine ⟨c :: x, pieces, ?_⟩
      rw [splitFrom_step? hstep, hx, List.reverse_cons, List.append_assoc]
      rfl

end Cursor

/-! ## Parameters as they are declared -/

structure Name (starts : Char → Bool) where
  text : String
  begins : text.toList.head?.any starts = true
  goesOn : text.toList.all Text.isNameChar = true

/-- The text of a default: an expression without comments whose commas are all within brackets or
strings. -/
structure Default where
  text : String
  expr : Expr
  isRead : readExpr text = .ok expr
  isNested : IsNested .start text.toList

inductive Declared
  | plain (name : Name Text.isNameStart)
  | withDefault (name : Name Text.isNameStart) (default : Default)
  | rest (name : Name Text.isNameStart)

namespace Declared

def text : Declared → String
  | plain name => "$" ++ name.text
  | withDefault name default => "$" ++ name.text ++ ": " ++ default.text
  | rest name => "$" ++ name.text ++ "..."

def parameter : Declared → Parameter
  | plain name => ⟨Text.canonicalName name.text, none, false⟩
  | withDefault name default => ⟨Text.canonicalName name.text, some default.expr, false⟩
  | rest name => ⟨Text.canonicalName name.text, none, true⟩

end Declared

theorem Name.isNameChar {starts : Char → Bool} (name : Name starts) :
    ∀ c ∈ name.text.toList, Text.isNameChar c = true :=
  List.all_eq_true.mp name.goesOn

section Reading

variable {lead : List Char} {signature : String}

theorem spanName?_name (name : Name Text.isNameStart) (tail : List Char)
    (h : tail.head?.all (fun c => !Text.isNameChar c) = true) :
    Source.spanName? (name.text.toList ++ tail) = some (name.text.toList, tail) := by
  have hspan : (name.text.toList ++ tail).span Text.isNameChar = (name.text.toList, tail) := by
    rw [Source.span_append name.isNameChar]
    cases tail with
    | nil => simp
    | cons c tail =>
      have hc : Text.isNameChar c = false := by simpa using h
      simp [List.span_eq_takeWhile_dropWhile, hc]
  have hbegins := name.begins
  cases hname : name.text.toList with
  | nil =>
    rw [hname] at hbegins
    cases hbegins
  | cons c more =>
    rw [hname] at hbegins hspan
    rw [List.cons_append] at hspan ⊢
    have hstart : Text.isNameStart c = true := hbegins
    rw [Source.spanName?, if_pos hstart, hspan]

theorem trimLeft_blanks (hlead : ∀ c ∈ lead, Text.isBlank c = true) (text : List Char) :
    Text.trimLeft (lead ++ text) = Text.trimLeft text :=
  List.dropWhile_append_of_pos hlead

theorem trimLeft_cons {c : Char} (hc : Text.isBlank c = false) (text : List Char) :
    Text.trimLeft (c :: text) = c :: text :=
  List.dropWhile_cons_of_neg (by rw [hc]; exact Bool.false_ne_true)

theorem parameter?_plain (hlead : ∀ c ∈ lead, Text.isBlank c = true)
    (name : Name Text.isNameStart) :
    parameter? (lead ++ (Declared.plain name).text.toList) =
      some (Text.canonicalName name.text, false, none) := by
  have htext : (Declared.plain name).text.toList = '$' :: (name.text.toList ++ []) := by
    simp [Declared.text]
  rw [htext, parameter?, trimLeft_blanks hlead, trimLeft_cons rfl]
  simp only [spanName?_name name [] rfl, Option.bind_eq_bind, Option.bind_some,
    String.ofList_toList]
  rfl

theorem parameter?_rest (hlead : ∀ c ∈ lead, Text.isBlank c = true)
    (name : Name Text.isNameStart) :
    parameter? (lead ++ (Declared.rest name).text.toList) =
      some (Text.canonicalName name.text, true, none) := by
  have htext : (Declared.rest name).text.toList =
      '$' :: (name.text.toList ++ ['.', '.', '.']) := by
    simp [Declared.text]
  rw [htext, parameter?, trimLeft_blanks hlead, trimLeft_cons rfl]
  simp only [spanName?_name name ['.', '.', '.'] rfl, Option.bind_eq_bind, Option.bind_some,
    String.ofList_toList]
  rfl

theorem parameter?_default (hlead : ∀ c ∈ lead, Text.isBlank c = true)
    (name : Name Text.isNameStart) {text : List Char} (h : Text.trim text ≠ []) :
    parameter? (lead ++ '$' :: (name.text.toList ++ ':' :: ' ' :: text)) =
      some (Text.canonicalName name.text, false, some (String.ofList (Text.trim text))) := by
  have htrim : Text.trim (' ' :: text) = Text.trim text := rfl
  have hdefault : defaultText? (' ' :: text) = some (Text.trim text) := by
    rw [defaultText?, htrim]
    split
    · exact absurd ‹_› h
    · rfl
  rw [parameter?, trimLeft_blanks hlead, trimLeft_cons rfl]
  have hcolon : Text.trimLeft (':' :: ' ' :: text) = ':' :: ' ' :: text := trimLeft_cons rfl _
  simp only [spanName?_name name (':' :: ' ' :: text) rfl, Option.bind_eq_bind, Option.bind_some,
    String.ofList_toList, hcolon, hdefault]
  rfl

theorem readParameter_default_iff (hlead : ∀ c ∈ lead, Text.isBlank c = true)
    (name : Name Text.isNameStart) {text : List Char} (h : Text.trim text ≠ []) {e : Expr} :
    readParameter signature (lead ++ '$' :: (name.text.toList ++ ':' :: ' ' :: text)) =
        .ok ⟨Text.canonicalName name.text, some e, false⟩ ↔
      readExpr (String.ofList (Text.trim text)) = .ok e := by
  have hvalue :
      readParameter signature (lead ++ '$' :: (name.text.toList ++ ':' :: ' ' :: text)) =
        (readExpr (String.ofList (Text.trim text)) >>= fun e =>
          pure ⟨Text.canonicalName name.text, some e, false⟩) := by
    rw [readParameter, parameter?_default hlead name h]
  rw [hvalue, Outcome.bind_eq_ok_iff]
  constructor
  · rintro ⟨found, hfound, hok⟩
    cases hok
    exact hfound
  · exact fun hok => ⟨e, hok, rfl⟩

theorem toList_withDefault (name : Name Text.isNameStart) (default : Default) :
    (Declared.withDefault name default).text.toList =
      '$' :: (name.text.toList ++ ':' :: ' ' :: default.text.toList) := by
  simp [Declared.text]

theorem readParameter_text (hlead : ∀ c ∈ lead, Text.isBlank c = true) (item : Declared) :
    readParameter signature (lead ++ item.text.toList) = .ok item.parameter := by
  cases item with
  | plain name =>
    rw [readParameter, parameter?_plain hlead]
    rfl
  | rest name =>
    rw [readParameter, parameter?_rest hlead]
    rfl
  | withDefault name default =>
    have hread : readExpr (String.ofList default.text.toList) = .ok default.expr := by
      rw [String.ofList_toList]
      exact default.isRead
    have hne := Source.trim_ne_nil hread default.isNested
    rw [toList_withDefault]
    exact (readParameter_default_iff hlead name hne).mpr
      (Source.readExpr_trim hread default.isNested)

end Reading

/-! ## Parameters that are cut -/

theorem Cursor.along?_plain {x : List Char} (h : ∀ c ∈ x, c ∉ Source.specials ∧ c ≠ ',') :
    free.along? x = some free := by
  induction x with
  | nil => rfl
  | cons c x ih =>
    obtain ⟨⟨hspecial, hcomma⟩, hx⟩ := List.forall_mem_cons.mp h
    have hstep : free.step? c = some free := by
      simp [free, step?, Source.isMark_of_not_special hspecial, hcomma,
        Source.turnAt_of_not_special hspecial]
    have hbind : free.along? (c :: x) = (free.step? c).bind fun s => s.along? x := rfl
    rw [hbind, hstep]
    exact ih hx

theorem Name.apart {starts : Char → Bool} (name : Name starts) :
    ∀ c ∈ name.text.toList, c ∉ Source.specials ∧ c ≠ ',' := by
  intro c hc
  have hname := name.isNameChar c hc
  constructor
  · intro hspecial
    exact List.any_eq_false.mp Source.isNameChar_special c hspecial hname
  · rintro rfl
    cases hname

namespace Declared

/-- Where the cutting has come to behind a parameter, unless it has cut it. -/
def cursor? (item : Declared) : Option Cursor := Cursor.free.along? item.text.toList

theorem cursor?_plain (name : Name Text.isNameStart) : (plain name).cursor? = some .free := by
  refine Cursor.along?_plain ?_
  simpa [text, Source.specials] using name.apart

theorem cursor?_rest (name : Name Text.isNameStart) : (rest name).cursor? = some .free := by
  refine Cursor.along?_plain ?_
  have happart := name.apart
  simp only [text, String.toList_append, List.forall_mem_append]
  simp only [String.reduceToList, List.forall_mem_cons]
  exact ⟨⟨⟨by decide, nofun⟩, happart⟩, by decide, by decide, by decide, nofun⟩

theorem apart_colon (name : Name Text.isNameStart) :
    ∀ c ∈ '$' :: (name.text.toList ++ [':', ' ']), c ∉ Source.specials ∧ c ≠ ',' := by
  simp only [List.forall_mem_cons, List.forall_mem_append]
  exact ⟨by decide, name.apart, by decide, by decide, nofun⟩

theorem along?_colon (name : Name Text.isNameStart) (x : List Char) :
    Cursor.free.along? ('$' :: (name.text.toList ++ ':' :: ' ' :: x)) = Cursor.free.along? x := by
  have hfront : '$' :: (name.text.toList ++ ':' :: ' ' :: x) =
      '$' :: (name.text.toList ++ [':', ' ']) ++ x := by simp
  rw [hfront, Cursor.along?_append, Cursor.along?_plain (apart_colon name), Option.bind_some]

theorem cursor?_withDefault (name : Name Text.isNameStart) (default : Default) :
    (withDefault name default).cursor? = Cursor.free.along? default.text.toList := by
  rw [cursor?, toList_withDefault, along?_colon]

end Declared

section Pieces

variable {lead before after : List Char} {signature : String} {item : Declared}

theorem exists_of_append_eq {front x : List Char} (hfront : ',' ∉ front)
    (h : front ++ x = before ++ ',' :: after) :
    ∃ y, before = front ++ y ∧ x = y ++ ',' :: after := by
  rcases List.append_eq_append_iff.mp h with ⟨y, hbefore, hx⟩ | ⟨y, hy, hx⟩
  · exact ⟨y, hbefore, hx⟩
  · cases y with
    | nil =>
      rw [List.append_nil] at hy
      exact ⟨[], by rw [hy, List.append_nil], hx.symm⟩
    | cons c y =>
      cases hx
      rw [hy] at hfront
      exact absurd (List.mem_append_right _ List.mem_cons_self) hfront

/-- A piece that breaks off at a comma is not read as the parameter that it begins. -/
theorem readParameter_front_ne (hlead : ∀ c ∈ lead, Text.isBlank c = true)
    (hfree : item.cursor? ≠ some .free) (h : item.text.toList = before ++ ',' :: after) :
    readParameter signature (lead ++ before) ≠ .ok item.parameter := by
  cases item with
  | plain name => exact absurd (Declared.cursor?_plain name) hfree
  | rest name => exact absurd (Declared.cursor?_rest name) hfree
  | withDefault name default =>
    have hfront : ',' ∉ '$' :: (name.text.toList ++ [':', ' ']) :=
      fun hmem => (Declared.apart_colon name _ hmem).2 rfl
    rw [toList_withDefault] at h
    obtain ⟨x, hbefore, hx⟩ :=
      exists_of_append_eq (x := default.text.toList) hfront (by simpa using h)
    have hnested := default.isNested
    rw [hx] at hnested
    have hwithin := hnested.commas x after rfl
    have hspot : Spot.start.along x ≠ .start := by
      intro hstart
      rw [hstart] at hwithin
      exact absurd hwithin (Int.lt_irrefl 0)
    have hne : Text.trim x ≠ [] := fun hnil =>
      hspot (Source.along_blanks (Source.isBlank_of_trim_eq_nil hnil) 0)
    have hpiece : lead ++ before = lead ++ '$' :: (name.text.toList ++ ':' :: ' ' :: x) := by
      rw [hbefore]
      simp
    rw [hpiece]
    exact fun hok => Source.readExpr_trim_ne hnested.of_append_left hspot
      ((readParameter_default_iff hlead name hne).mp hok)

/-- A piece that goes on behind a comma is not read as the parameter in front of it. -/
theorem readParameter_comma_ne (hlead : ∀ c ∈ lead, Text.isBlank c = true)
    (hfree : item.cursor? ≠ some .free) (more : List Char) :
    readParameter signature (lead ++ (item.text.toList ++ ',' :: more)) ≠ .ok item.parameter := by
  cases item with
  | plain name => exact absurd (Declared.cursor?_plain name) hfree
  | rest name => exact absurd (Declared.cursor?_rest name) hfree
  | withDefault name default =>
    have hread : readExpr (String.ofList default.text.toList) = .ok default.expr := by
      rw [String.ofList_toList]
      exact default.isRead
    have hne : Text.trim (default.text.toList ++ ',' :: more) ≠ [] := fun hnil =>
      absurd (Source.isBlank_of_trim_eq_nil hnil ',' (by simp)) (by decide)
    have hpiece : (Declared.withDefault name default).text.toList ++ ',' :: more =
        '$' :: (name.text.toList ++ ':' :: ' ' :: (default.text.toList ++ ',' :: more)) := by
      rw [toList_withDefault]
      simp
    rw [hpiece]
    exact fun hok => Source.readExpr_trim_comma_ne hread default.isNested more
      ((readParameter_default_iff hlead name hne).mp hok)

end Pieces

/-! ## Parameter lists -/

/-- No parameter is cut, and each but the last ends where the cutting has nothing open. -/
def AreWhole : List Declared → Prop
  | [] => True
  | [item] => item.cursor? ≠ none
  | item :: items => item.cursor? = some .free ∧ AreWhole items

def joined (items : List Declared) : String := ", ".intercalate (items.map Declared.text)

theorem toList_joined_cons (item next : Declared) (items : List Declared) :
    (joined (item :: next :: items)).toList =
      item.text.toList ++ ',' :: ' ' :: (joined (next :: items)).toList := by
  simp [joined, String.intercalate_cons_cons]

theorem toList_joined_singleton (item : Declared) :
    (joined [item]).toList = item.text.toList := by
  simp [joined]

theorem mapM_cons_eq_ok_iff {α β : Type} {f : α → Outcome β} {a : α} {as : List α} {b : β}
    {bs : List β} : (a :: as).mapM f = .ok (b :: bs) ↔ f a = .ok b ∧ as.mapM f = .ok bs := by
  rw [List.mapM_cons, Outcome.bind_eq_ok_iff]
  constructor
  · rintro ⟨c, hc, h⟩
    obtain ⟨cs, hcs, hpure⟩ := Outcome.bind_eq_ok_iff.mp h
    cases hpure
    exact ⟨hc, hcs⟩
  · rintro ⟨hb, hbs⟩
    exact ⟨b, hb, Outcome.bind_eq_ok_iff.mpr ⟨bs, hbs, rfl⟩⟩

section Lists

variable {signature : String} {lead : List Char}

theorem isBlank_lead (hlead : ∀ c ∈ lead, c = ' ') : ∀ c ∈ lead, Text.isBlank c = true := by
  intro c hc
  rw [hlead c hc]
  rfl

theorem along?_spaces (hlead : ∀ c ∈ lead, c = ' ') (x : List Char) :
    Cursor.free.along? (lead ++ x) = Cursor.free.along? x := by
  have hplain : ∀ c ∈ lead, c ∉ Source.specials ∧ c ≠ ',' := by
    intro c hc
    rw [hlead c hc]
    decide
  rw [Cursor.along?_append, Cursor.along?_plain hplain, Option.bind_some]

theorem along?_lead (hlead : ∀ c ∈ lead, c = ' ') (item : Declared) :
    Cursor.free.along? (lead ++ item.text.toList) = item.cursor? :=
  along?_spaces hlead item.text.toList

theorem not_blank_item (lead : List Char) (item : Declared) :
    (lead ++ item.text.toList).reverse.all Text.isBlank = false := by
  have hmem : '$' ∈ item.text.toList := by
    cases item <;> simp [Declared.text]
  rw [List.all_reverse, List.all_append]
  have hitem : item.text.toList.all Text.isBlank = false := by
    rw [List.all_eq_false]
    exact ⟨'$', hmem, by decide⟩
  rw [hitem, Bool.and_false]

/-- A parameter that is cut makes a piece that is not read as it. -/
theorem mapM_cut_ne {item : Declared} {params : List Parameter} (hlead : ∀ c ∈ lead, c = ' ')
    (h : item.cursor? = none) (tail : List Char) :
    (splitFrom none 0 [] (lead ++ item.text.toList ++ tail)).mapM (readParameter signature) ≠
      .ok (item.parameter :: params) := by
  have hfree : item.cursor? ≠ some .free := by
    rw [h]
    exact nofun
  obtain ⟨before, after, htext, hbefore⟩ := Cursor.exists_comma h
  have halong : Cursor.free.along? (lead ++ before) = some .free := by
    rw [along?_spaces hlead, hbefore]
  have hsplit : splitFrom none 0 [] (lead ++ item.text.toList ++ tail) =
      (lead ++ before) :: splitFrom none 0 [] (after ++ tail) := by
    have hcut := Cursor.splitFrom_along? halong [] (',' :: (after ++ tail))
    rw [htext]
    have hassoc : lead ++ (before ++ ',' :: after) ++ tail =
        lead ++ before ++ ',' :: (after ++ tail) := by simp
    rw [hassoc]
    refine hcut.trans ?_
    rw [List.append_nil]
    refine (Cursor.splitFrom_comma _ _).trans ?_
    rw [List.reverse_reverse]
  rw [hsplit]
  exact fun hok => readParameter_front_ne (isBlank_lead hlead) hfree htext
    (mapM_cons_eq_ok_iff.mp hok).1

/-- A parameter that does not end where nothing is open takes the comma behind it along. -/
theorem mapM_open_ne {item : Declared} {s : Cursor} {params : List Parameter}
    (hlead : ∀ c ∈ lead, c = ' ') (h : item.cursor? = some s) (hs : s ≠ .free) (tail : List Char) :
    (splitFrom none 0 [] (lead ++ item.text.toList ++ ',' :: tail)).mapM (readParameter signature) ≠
      .ok (item.parameter :: params) := by
  have hfree : item.cursor? ≠ some .free := by
    rw [h]
    exact fun he => hs (Option.some.inj he)
  have halong := along?_lead hlead item
  rw [h] at halong
  cases hstep : s.step? ',' with
  | none => exact absurd (Cursor.step?_eq_none hstep).1 hs
  | some next =>
    have hcurrent : (',' :: (lead ++ item.text.toList).reverse).all Text.isBlank = false := rfl
    obtain ⟨x, pieces, hx⟩ := Cursor.exists_first next hcurrent tail
    have hsplit : splitFrom none 0 [] (lead ++ item.text.toList ++ ',' :: tail) =
        (lead ++ (item.text.toList ++ ',' :: x)) :: pieces := by
      refine (Cursor.splitFrom_along? halong [] (',' :: tail)).trans ?_
      rw [List.append_nil, Cursor.splitFrom_step? hstep, hx]
      simp
    rw [hsplit]
    exact fun hok => readParameter_comma_ne (isBlank_lead hlead) hfree x
      (mapM_cons_eq_ok_iff.mp hok).1

/-- The pieces are read as the parameters in their order exactly if all are whole. -/
theorem mapM_split_iff (items : List Declared) (hne : items ≠ []) (hlead : ∀ c ∈ lead, c = ' ') :
    (splitFrom none 0 [] (lead ++ (joined items).toList)).mapM (readParameter signature) =
        .ok (items.map Declared.parameter) ↔ AreWhole items := by
  induction items generalizing lead with
  | nil => exact absurd rfl hne
  | cons item items ih =>
    have hread : readParameter signature (lead ++ item.text.toList) = .ok item.parameter :=
      readParameter_text (isBlank_lead hlead) item
    have halong := along?_lead hlead item
    cases items with
    | nil =>
      rw [toList_joined_singleton]
      cases hc : item.cursor? with
      | none =>
        have hcut : (splitFrom none 0 [] (lead ++ item.text.toList ++ [])).mapM
            (readParameter signature) ≠ .ok [item.parameter] := mapM_cut_ne hlead hc []
        rw [List.append_nil] at hcut
        exact iff_of_false hcut fun h => h hc
      | some s =>
        rw [hc] at halong
        have hsplit : splitFrom none 0 [] (lead ++ item.text.toList) =
            [lead ++ item.text.toList] := by
          have hend := Cursor.splitFrom_along? halong [] []
          rw [List.append_nil, List.append_nil] at hend
          refine hend.trans ?_
          rw [splitFrom, not_blank_item, List.reverse_reverse]
          rfl
        rw [hsplit]
        refine iff_of_true (mapM_cons_eq_ok_iff.mpr ⟨hread, rfl⟩) ?_
        exact fun h => nomatch hc.symm.trans h
    | cons next items =>
      rw [toList_joined_cons, ← List.append_assoc]
      have hwhole : AreWhole (item :: next :: items) ↔
          item.cursor? = some .free ∧ AreWhole (next :: items) := Iff.rfl
      rw [hwhole]
      cases hc : item.cursor? with
      | none => exact iff_of_false (mapM_cut_ne hlead hc _) fun h => nomatch h.1
      | some s =>
        by_cases hs : s = .free
        · rw [hc, hs] at halong
          have hsplit : splitFrom none 0 []
              (lead ++ item.text.toList ++ ',' :: ' ' :: (joined (next :: items)).toList) =
              (lead ++ item.text.toList) ::
                splitFrom none 0 [] ([' '] ++ (joined (next :: items)).toList) := by
            refine (Cursor.splitFrom_along? halong [] _).trans ?_
            rw [List.append_nil]
            refine (Cursor.splitFrom_comma _ _).trans ?_
            rw [List.reverse_reverse]
            rfl
          rw [hsplit, List.map_cons, mapM_cons_eq_ok_iff, hs,
            ih (List.cons_ne_nil next items) (List.forall_mem_singleton.mpr rfl)]
          exact and_congr_left fun _ => iff_of_true hread rfl
        · refine iff_of_false (mapM_open_ne hlead hc hs _) ?_
          exact fun h => hs (Option.some.inj h.1)

end Lists

/-! ## Backslashes -/

/-- What a spot is taken for where backslashes mean nothing. -/
def Cursor.ofSpot : Spot → Cursor
  | .outside depth => ⟨none, depth⟩
  | .inside mark _ depth => ⟨some mark, depth⟩

/-- No string has its own mark behind a backslash. -/
def IsUnescaped (p : Spot) (text : List Char) : Prop :=
  ∀ before c after, text = before ++ c :: after → ¬ (p.along before).IsEscapedMark c

theorem isUnescaped_cons_iff {p : Spot} {c : Char} {text : List Char} :
    IsUnescaped p (c :: text) ↔ ¬ p.IsEscapedMark c ∧ IsUnescaped (p.step c) text := by
  constructor
  · intro h
    refine ⟨h [] c text rfl, ?_⟩
    rintro before d after rfl
    exact h (c :: before) d after rfl
  · rintro ⟨hc, hrest⟩ before d after h
    cases before with
    | nil =>
      cases h
      exact hc
    | cons e before =>
      cases h
      exact hrest before d after rfl

instance IsUnescaped.decidable :
    (p : Spot) → (text : List Char) → Decidable (IsUnescaped p text)
  | _, [] => isTrue fun before _ _ h => by cases before <;> cases h
  | p, c :: text =>
    have := IsUnescaped.decidable (p.step c) text
    decidable_of_iff' _ isUnescaped_cons_iff

theorem along?_ofSpot {p : Spot} {text : List Char} (hn : IsNested p text)
    (hu : IsUnescaped p text) :
    (Cursor.ofSpot p).along? text = some (.ofSpot (p.along text)) := by
  induction text generalizing p with
  | nil => rfl
  | cons c text ih =>
    have hrest : IsNested (p.step c) text := hn.of_append_right (x := [c])
    obtain ⟨hc, hunescaped⟩ := isUnescaped_cons_iff.mp hu
    have hstep : (Cursor.ofSpot p).step? c = some (.ofSpot (p.step c)) := by
      cases p with
      | outside depth =>
        have hcomma : ¬ (c == ',' && depth == 0) = true := by
          intro h
          simp only [Bool.and_eq_true, beq_iff_eq] at h
          obtain ⟨rfl, rfl⟩ := h
          exact absurd (hn.commas [] text rfl) (Int.lt_irrefl 0)
        by_cases hm : Text.isMark c = true
        · simp only [Cursor.ofSpot, Cursor.step?, Spot.step, hm, if_true]
        · simp only [Cursor.ofSpot, Cursor.step?, Spot.step, hm, hcomma, if_false,
            Bool.false_eq_true]
      | inside mark escaped depth =>
        cases escaped with
        | true =>
          have hne : c ≠ mark := hc
          simp [Cursor.ofSpot, Cursor.step?, Spot.step, hne]
        | false =>
          by_cases hc : (c == mark) = true
          · simp only [Cursor.ofSpot, Cursor.step?, Spot.step, hc, if_true]
          · simp only [Cursor.ofSpot, Cursor.step?, Spot.step, hc, if_false, Bool.false_eq_true]
    have hbind : (Cursor.ofSpot p).along? (c :: text) =
        ((Cursor.ofSpot p).step? c).bind fun s => s.along? text := rfl
    rw [hbind, hstep]
    exact ih hrest hunescaped

namespace Declared

def IsUnescaped : Declared → Prop
  | withDefault _ default => Signature.IsUnescaped .start default.text.toList
  | _ => True

theorem cursor?_of_isUnescaped {item : Declared} (h : item.IsUnescaped) :
    item.cursor? = some .free := by
  cases item with
  | plain name => exact cursor?_plain name
  | rest name => exact cursor?_rest name
  | withDefault name default =>
    obtain ⟨-, -, -, -, -, halong⟩ := Source.openings_of_readExpr default.isRead default.isNested
    have hcursor := along?_ofSpot default.isNested h
    rw [halong] at hcursor
    rw [cursor?_withDefault]
    exact hcursor

end Declared

theorem areWhole_of_isUnescaped {items : List Declared} (h : ∀ item ∈ items, item.IsUnescaped) :
    AreWhole items := by
  induction items with
  | nil => trivial
  | cons item items ih =>
    obtain ⟨hitem, hitems⟩ := List.forall_mem_cons.mp h
    have hcursor := Declared.cursor?_of_isUnescaped hitem
    cases items with
    | nil => exact fun hnone => nomatch hcursor.symm.trans hnone
    | cons next items => exact ⟨hcursor, ih hitems⟩

/-! ## Whole signatures -/

/-- A function with its parameters, of which at most the last takes all that is left. -/
structure Declaration where
  function : Name startsFunctionName
  items : List Declared
  restIsLast : ∀ item ∈ items.dropLast, item.parameter.isRest = false

namespace Declaration

def text (d : Declaration) : String := d.function.text ++ "(" ++ joined d.items ++ ")"

def signature (d : Declaration) : Signature :=
  ⟨Text.canonicalName d.function.text, d.items.map Declared.parameter⟩

def IsUnescaped (d : Declaration) : Prop := ∀ item ∈ d.items, item.IsUnescaped

theorem trim_of_ends {text : List Char} (hfront : text.head?.any Text.isBlank = false)
    (hback : text.reverse.head?.any Text.isBlank = false) : Text.trim text = text := by
  have hkept (x : List Char) (hx : x.head?.any Text.isBlank = false) : Text.trimLeft x = x := by
    cases x with
    | nil => rfl
    | cons c x => exact trimLeft_cons hx x
  rw [Text.trim, hkept _ hfront, hkept _ hback, List.reverse_reverse]

theorem isBlank_of_isNameChar {c : Char} (h : Text.isNameChar c = true) :
    Text.isBlank c = false := by
  cases hb : Text.isBlank c with
  | false => rfl
  | true =>
    rw [(Source.apart_of_isBlank hb).1.notName] at h
    cases h

theorem outline?_text (d : Declaration) :
    outline? d.text.toList =
      some (Text.canonicalName d.function.text, (joined d.items).toList) := by
  have hbegins := d.function.begins
  have hgoesOn := d.function.isNameChar
  have htext : d.text.toList =
      d.function.text.toList ++ '(' :: ((joined d.items).toList ++ [')']) := by
    simp [text]
  have hspan : (d.function.text.toList ++ '(' :: ((joined d.items).toList ++ [')'])).span
      Text.isNameChar = (d.function.text.toList, '(' :: ((joined d.items).toList ++ [')'])) := by
    rw [Source.span_append hgoesOn]
    simp [List.span_eq_takeWhile_dropWhile, show Text.isNameChar '(' = false by decide]
  have hhead : (d.function.text.toList ++ '(' :: ((joined d.items).toList ++ [')'])).head? =
      d.function.text.toList.head? := by
    cases hf : d.function.text.toList with
    | nil =>
      rw [hf] at hbegins
      cases hbegins
    | cons c more => rfl
  have htrim : Text.trim (d.function.text.toList ++ '(' :: ((joined d.items).toList ++ [')'])) =
      d.function.text.toList ++ '(' :: ((joined d.items).toList ++ [')']) := by
    refine trim_of_ends ?_ ?_
    · rw [hhead]
      cases hf : d.function.text.toList with
      | nil => rfl
      | cons c more =>
        rw [hf] at hgoesOn
        exact isBlank_of_isNameChar (hgoesOn c List.mem_cons_self)
    · simp only [List.reverse_append, List.reverse_cons, List.reverse_nil, List.nil_append,
        List.cons_append]
      rfl
  rw [htext, outline?]
  simp only [htrim, hhead, hbegins, guard_true, hspan, Option.bind_eq_bind]
  rw [trimLeft_cons rfl]
  simp

theorem read_eq_ok_iff (d : Declaration) :
    read d.text = .ok d.signature ↔
      (split (joined d.items).toList).mapM (readParameter d.text) =
        .ok (d.items.map Declared.parameter) := by
  have hlast : (d.items.map Declared.parameter).dropLast.any Parameter.isRest = false := by
    rw [← List.map_dropLast, List.any_map, List.any_eq_false]
    intro item hitem
    rw [Function.comp_apply, d.restIsLast item hitem]
    exact Bool.false_ne_true
  have hread : read d.text =
      ((split (joined d.items).toList).mapM (readParameter d.text) >>= fun parameters =>
        if parameters.dropLast.any Parameter.isRest then throw (.variadicNotLast d.text)
        else pure ⟨Text.canonicalName d.function.text, parameters⟩) := by
    rw [read, outline?_text]
    rfl
  rw [hread, Outcome.bind_eq_ok_iff]
  constructor
  · rintro ⟨parameters, hparameters, h⟩
    split at h
    · cases h
    · cases h
      exact hparameters
  · intro h
    refine ⟨_, h, ?_⟩
    rw [hlast]
    rfl

/-- A signature is read as it is declared exactly if the cutting keeps its parameters whole, and it
keeps them if no string has its own mark behind a backslash. -/
theorem read_iff (d : Declaration) :
    (read d.text = .ok d.signature ↔ AreWhole d.items) ∧
      (d.IsUnescaped → read d.text = .ok d.signature) := by
  have hwhole : read d.text = .ok d.signature ↔ AreWhole d.items := by
    rw [read_eq_ok_iff]
    by_cases hne : d.items = []
    · rw [hne]
      exact iff_of_true rfl trivial
    · have hlead : ∀ c ∈ ([] : List Char), c = ' ' := nofun
      exact mapM_split_iff d.items hne hlead
  exact ⟨hwhole, fun h => hwhole.mpr (areWhole_of_isUnescaped h)⟩

def nestedCommas : Declaration where
  function := ⟨"f", rfl, by decide⟩
  items :=
    [.withDefault ⟨"a", rfl, by decide⟩
      { text := "(1, \"b,c\")"
        expr :=
          .list [.literal (.number ⟨.int 1, [], []⟩), .literal (.string "\"b,c\"")] .comma false
        isRead := by rfl
        isNested := by decide },
      .rest ⟨"d", rfl, by decide⟩]
  restIsLast := by decide

theorem read_iff_nestedCommas :
    nestedCommas.text = "f($a: (1, \"b,c\"), $d...)" ∧ nestedCommas.IsUnescaped ∧
      read nestedCommas.text = .ok nestedCommas.signature := by
  have hunescaped : nestedCommas.IsUnescaped := by
    refine List.forall_mem_cons.mpr ⟨?_, List.forall_mem_cons.mpr ⟨trivial, nofun⟩⟩
    show Signature.IsUnescaped .start "(1, \"b,c\")".toList
    decide
  exact ⟨by decide, hunescaped, nestedCommas.read_iff.2 hunescaped⟩

def escapedMark : Declaration where
  function := ⟨"f", rfl, by decide⟩
  items :=
    [.withDefault ⟨"a", rfl, by decide⟩
      { text := "\"\\\",\""
        expr := .literal (.string "\"\\\",\"")
        isRead := by rfl
        isNested := by decide }]
  restIsLast := by decide

theorem exists_read_ne :
    ∃ d : Declaration, d.text = "f($a: \"\\\",\")" ∧ read d.text ≠ .ok d.signature := by
  have htext : escapedMark.text = "f($a: \"\\\",\")" := by decide
  have hread : ∃ failure, read "f($a: \"\\\",\")" = .error failure := ⟨_, by rfl⟩
  refine ⟨escapedMark, htext, ?_⟩
  obtain ⟨failure, hfailure⟩ := hread
  rw [htext, hfailure]
  intro h
  cases h

end Declaration

end SassData.Signature
