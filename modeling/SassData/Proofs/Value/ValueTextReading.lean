import SassData.Proofs.Source.FormulaPrinting
import SassData.Proofs.Source.SpaceLists
import SassData.Proofs.Value.PlainValueText

/-!
# What the text of a value is read as

The text of a value in constants, integers, string literals, lists and maps is read as an expression
that is told from the value: the expressions of its items and pairs, put together as the value is,
but for negative integers in space lists, which are taken away from the item before them. Two forms
are left aside, keys that are comma lists without brackets and lists without brackets that are alone
in brackets.
-/

namespace SassData.Value

set_option autoImplicit false

open Source (Written IsStringLiteral Lexes Reads Stands Next ReadsNext Begins gathered inRow)

/-! ## Values -/

/-- How many items a list has, given what is between and around them. -/
def HasForm (separator : Separator) (bracketed : Bool) (n : Nat) : Prop :=
  match separator with
  | .comma => 0 < n
  | .space => 2 ≤ n
  | .undecided => bracketed = true ∧ n = 1
  | .slash => False

instance (separator : Separator) (bracketed : Bool) (n : Nat) :
    Decidable (HasForm separator bracketed n) :=
  match separator with
  | .comma => inferInstanceAs (Decidable (0 < n))
  | .space => inferInstanceAs (Decidable (2 ≤ n))
  | .undecided => inferInstanceAs (Decidable (bracketed = true ∧ n = 1))
  | .slash => inferInstanceAs (Decidable False)

mutual

/-- Constants, integers, string literals, comma lists, space lists of several items, single items in
brackets, and maps whose keys differ. -/
def IsShown : Value → Prop
  | null | bool _ => True
  | number n => ∃ k : Int, n = .ofInt k
  | string text => IsStringLiteral text
  | list items separator bracketed => HasForm separator bracketed items.length ∧ AllShown items
  | map pairs => pairs ≠ [] ∧ (pairs.map Prod.fst).Pairwise (fun k l => k.same l = false) ∧
      PairsShown pairs
  | color _ | custom .. => False

def AllShown : List Value → Prop
  | [] => True
  | v :: rest => v.IsShown ∧ AllShown rest

def PairsShown : List (Value × Value) → Prop
  | [] => True
  | (key, v) :: rest => key.IsShown ∧ v.IsShown ∧ PairsShown rest

end

def isRow : Value → Bool
  | list (_ :: _ :: _) .comma false => true
  | _ => false

def isOpen : Value → Bool
  | list _ _ false => true
  | _ => false

mutual

/-- No key of a map is a row, and what is alone in brackets is no list without brackets. -/
def IsDelimited : Value → Prop
  | list items separator _ =>
    (separator = .undecided → ∀ item ∈ items, item.isOpen = false) ∧ AllDelimited items
  | map pairs => PairsDelimited pairs
  | _ => True

def AllDelimited : List Value → Prop
  | [] => True
  | v :: rest => v.IsDelimited ∧ AllDelimited rest

def PairsDelimited : List (Value × Value) → Prop
  | [] => True
  | (key, v) :: rest =>
    key.isRow = false ∧ key.IsDelimited ∧ v.IsDelimited ∧ PairsDelimited rest

end

/-! ## Expressions -/

/-- What a value is behind another, given its expression. -/
def nextOf (v : Value) (e : Expr) : Next :=
  match v with
  | number ⟨.int k, _, _⟩ => if k < 0 then .less (.ofInt (-k)) else .item e
  | _ => .item e

mutual

def reading : Value → Expr
  | number ⟨.int k, _, _⟩ => integerExpr k
  | list (v :: rest) .space bracketed =>
    let row := inRow (gathered v.reading (List.zipWith nextOf rest (readings rest)))
    if bracketed then Source.Reading.inBrackets row else row
  | list items separator bracketed => .list (readings items) separator bracketed
  | map pairs => .map (pairReadings pairs)
  | v => .literal v

def readings : List Value → List Expr
  | [] => []
  | v :: rest => v.reading :: readings rest

def pairReadings : List (Value × Value) → List (Expr × Expr)
  | [] => []
  | (key, v) :: rest => (key.reading, v.reading) :: pairReadings rest

end

def nexts (items : List Value) : List Next := List.zipWith nextOf items (readings items)

theorem exists_inBrackets (e : Expr) :
    ∃ es separator, Source.Reading.inBrackets e = .list es separator true := by
  unfold Source.Reading.inBrackets
  split
  · exact ⟨_, _, rfl⟩
  · exact ⟨_, _, rfl⟩

theorem inBrackets_reading {v : Value} (h : v.isOpen = false) :
    Source.Reading.inBrackets v.reading = .list [v.reading] .undecided true := by
  unfold reading
  split
  · unfold integerExpr
    split <;> rfl
  · next first rest bracketed =>
    cases bracketed with
    | false => cases h
    | true =>
      obtain ⟨es, separator, he⟩ := exists_inBrackets
        (inRow (gathered first.reading (List.zipWith nextOf rest (readings rest))))
      simp only [if_true, he]
      rfl
  · next bracketed _ =>
    cases bracketed with
    | false => cases h
    | true => rfl
  · rfl
  · rfl

/-! ## Texts -/

def rowText (v : Value) : List Char := (parens (inParens .space v) v.css).toList

def entryText (v : Value) : List Char := (parens (inParensInMap v) v.css).toList

theorem toList_parens (text : String) :
    (parens true text).toList = '(' :: (text.toList ++ [')']) := by
  simp [parens]

theorem inParens_comma (v : Value) : inParens .comma v = v.isRow := by
  rcases v with _ | _ | _ | _ | _ | ⟨_ | ⟨_, _ | _⟩, _ | _ | _ | _, _ | _⟩ | _ | _ <;> rfl

theorem exists_of_isRow {v : Value} (h : v.isRow = true) :
    ∃ x y rest, v = list (x :: y :: rest) .comma false := by
  unfold isRow at h
  split at h
  · exact ⟨_, _, _, rfl⟩
  · cases h

theorem isRow_of_isOpen {v : Value} (h : v.isOpen = false) : v.isRow = false := by
  cases hv : v.isRow with
  | false => rfl
  | true =>
    obtain ⟨x, y, rest, rfl⟩ := exists_of_isRow hv
    cases h

theorem inParens_of_isOpen {v : Value} (h : v.isOpen = false) (outer : Separator) :
    inParens outer v = false := by
  unfold inParens
  split
  · cases h
  · rfl

theorem rowText_of_isRow {v : Value} (h : v.isRow = true) : rowText v = itemText v := by
  obtain ⟨x, y, rest, rfl⟩ := exists_of_isRow h
  rfl

theorem entryText_of_isRow {v : Value} (h : v.isRow = true) : entryText v = itemText v := by
  obtain ⟨x, y, rest, rfl⟩ := exists_of_isRow h
  rfl

theorem toList_css_list (v w : Value) (rest : List Value) (separator : Separator)
    (bracketed : Bool) :
    (list (v :: w :: rest) separator bracketed).css.toList =
      let body := List.intercalate separator.joiner.toList
        ((v :: w :: rest).map fun v => (parens (inParens separator v) v.css).toList)
      if bracketed then '[' :: (body ++ [']']) else body := by
  rw [← toList_itemsCss]
  cases bracketed <;> cases separator <;> simp [css, listText, itemsCss]

theorem rowText_list (v w : Value) (rest : List Value) (separator : Separator) :
    rowText (list (v :: w :: rest) separator false) =
      '(' :: ((list (v :: w :: rest) separator false).css.toList ++ [')']) := by
  have hp : inParens .space (list (v :: w :: rest) separator false) = true := by
    cases separator <;> rfl
  rw [rowText, hp, toList_parens]

/-- The text of the value is read as its expression, alone and behind other values. -/
structure Appears (v : Value) : Prop where
  alone : v.isRow = false → Written v.css.toList v.reading
  next : ∃ ts, Lexes (rowText v) ts ∧ ReadsNext ts (nextOf v v.reading)

/-! ## Places -/

theorem nextOf_eq_item {v : Value} {e f : Expr} (h : nextOf v e = .item f) : e = f := by
  unfold nextOf at h
  split at h
  · split at h <;> cases h
    rfl
  · cases h
    rfl

theorem nextOf_eq_less {v : Value} {e : Expr} {n : Number} (h : nextOf v e = .less n) :
    v.reading = .unary .minus (.literal (.number n)) := by
  unfold nextOf at h
  split at h
  · split at h <;> cases h
    next hk => rw [reading, integerExpr, if_pos hk]
  · cases h

namespace Appears

variable {v : Value}

theorem of_stands {t : Source.Token} {ts : List Source.Token} (hl : Lexes v.css.toList (t :: ts))
    (hs : Stands (t :: ts) v.reading) (hb : Begins t) (hp : inParens .space v = false)
    (hn : nextOf v v.reading = .item v.reading) : Appears v where
  alone _ := ⟨_, hl, hs.reads⟩
  next := by
    refine ⟨t :: ts, ?_, ?_⟩
    · rw [rowText, hp]
      exact hl
    · rw [hn]
      exact .item hb hs

/-- Where a row is put in parentheses, every value is read as an item. -/
theorem listed (h : v.Appears) : Written (itemText v) v.reading := by
  cases hv : v.isRow with
  | false =>
    rw [itemText_of_not_inParens ((inParens_comma v).trans hv)]
    exact h.alone hv
  | true =>
    obtain ⟨ts, hl, hr⟩ := h.next
    rw [rowText_of_isRow hv] at hl
    obtain ⟨x, y, rest, rfl⟩ := exists_of_isRow hv
    cases hr with
    | item _ hs => exact ⟨_, hl, hs.reads⟩

/-- The value of a map is put in parentheses even if it is a list in brackets. -/
theorem paired (h : v.Appears) : Written (entryText v) v.reading := by
  cases hv : v.isRow with
  | true =>
    rw [entryText_of_isRow hv]
    exact h.listed
  | false =>
    have halone := h.alone hv
    rw [entryText]
    cases inParensInMap v with
    | false => exact halone
    | true =>
      rw [toList_parens]
      exact halone.parens

theorem first (h : v.Appears) : ∃ ts, Lexes (rowText v) ts ∧ (Stands ts v.reading ∨
    ∃ n, ts = [.symbol .minus, .number n] ∧ v.reading = .unary .minus (.literal (.number n))) := by
  obtain ⟨ts, hl, hr⟩ := h.next
  refine ⟨ts, hl, ?_⟩
  generalize hn : nextOf v v.reading = next at hr
  cases hr with
  | item _ hs =>
    rw [nextOf_eq_item hn]
    exact Or.inl hs
  | less n => exact Or.inr ⟨n, rfl, nextOf_eq_less hn⟩

end Appears

theorem forall₂_itemText {items : List Value} (h : ∀ v ∈ items, v.Appears) :
    List.Forall₂ Written (items.map itemText) (readings items) := by
  induction items with
  | nil => exact .nil
  | cons v rest ih =>
    exact .cons (h v List.mem_cons_self).listed (ih fun w hw => h w (List.mem_cons_of_mem v hw))

theorem exists_nexts {items : List Value} (h : ∀ v ∈ items, v.Appears) :
    ∃ tss, List.Forall₂ Lexes (items.map rowText) tss ∧
      List.Forall₂ ReadsNext tss (nexts items) := by
  induction items with
  | nil => exact ⟨[], .nil, .nil⟩
  | cons v rest ih =>
    obtain ⟨ts, hl, hr⟩ := (h v List.mem_cons_self).next
    obtain ⟨tss, hls, hrs⟩ := ih fun w hw => h w (List.mem_cons_of_mem v hw)
    exact ⟨ts :: tss, .cons hl hls, .cons hr hrs⟩

def entryTexts (pairs : List (Value × Value)) : List (List Char × List Char) :=
  pairs.map fun pair => (pair.1.css.toList, entryText pair.2)

theorem forall₂_entryTexts {pairs : List (Value × Value)}
    (h : ∀ pair ∈ pairs, pair.1.isRow = false ∧ pair.1.Appears ∧ pair.2.Appears) :
    List.Forall₂ (fun text pair => Written text.1 pair.1 ∧ Written text.2 pair.2)
      (entryTexts pairs) (pairReadings pairs) := by
  induction pairs with
  | nil => exact .nil
  | cons pair rest ih =>
    obtain ⟨hrow, hkey, hv⟩ := h pair List.mem_cons_self
    exact .cons ⟨hkey.alone hrow, hv.paired⟩ (ih fun p hp => h p (List.mem_cons_of_mem pair hp))

theorem toList_css_map (pairs : List (Value × Value)) :
    (map pairs).css.toList =
      '(' :: (List.intercalate [',', ' '] ((entryTexts pairs).map Source.pairText) ++ [')']) := by
  have hp : (pairsCss pairs).map String.toList = (entryTexts pairs).map Source.pairText := by
    induction pairs with
    | nil => rfl
    | cons pair rest ih =>
      rw [pairsCss, List.map_cons, ih]
      simp [Source.pairText, entryText, entryTexts]
  simp [css, mapText, ← hp]

/-! ## One case for each kind of value -/

theorem appears_integer (k : Int) : (number (.ofInt k)).Appears := by
  refine ⟨fun _ => written_integer k, integerTokens k, lexes_integer k, ?_⟩
  have hnext (e : Expr) : nextOf (number (.ofInt k)) e =
      if k < 0 then .less (.ofInt (-k)) else .item e := rfl
  have hreading : reading (number (.ofInt k)) = integerExpr k := rfl
  rw [hnext, hreading, integerTokens, integerExpr]
  split
  · exact .less _
  · exact .item ⟨rfl, fun _ => rfl⟩ (Source.stands_token fun _ => rfl)

theorem appears_pairs {pairs : List (Value × Value)} (hne : pairs ≠ [])
    (h : ∀ pair ∈ pairs, pair.1.isRow = false ∧ pair.1.Appears ∧ pair.2.Appears) :
    (map pairs).Appears := by
  obtain ⟨tss, hl, hr⟩ := Source.exists_pairTokens (forall₂_entryTexts h)
  have hreadings : pairReadings pairs ≠ [] := by
    cases pairs with
    | nil => exact absurd rfl hne
    | cons => exact List.cons_ne_nil _ _
  have htexts : (entryTexts pairs).map Source.pairText ≠ [] := by
    simpa [entryTexts] using hne
  refine .of_stands ?_ (Source.stands_map hr hreadings) ⟨rfl, fun _ => rfl⟩ rfl rfl
  rw [toList_css_map]
  exact (Lexes.items hl htexts).parens

theorem appears_one {v : Value} (h : v.Appears) (bracketed : Bool) :
    (list [v] .comma bracketed).Appears := by
  obtain ⟨ts, hl, hr⟩ := h.listed
  cases bracketed with
  | false =>
    refine .of_stands ?_ (Source.stands_one hr) ⟨rfl, fun _ => rfl⟩ rfl rfl
    have ht : (list [v] .comma false).css.toList = '(' :: (itemText v ++ [','] ++ [')']) := by
      simp [css, itemsCss, listText, itemText]
    rw [ht]
    exact hl.lastComma.parens
  | true =>
    refine .of_stands ?_ (Source.stands_one_brackets hr) ⟨rfl, fun _ => rfl⟩ rfl rfl
    have ht : (list [v] .comma true).css.toList = '[' :: (itemText v ++ [','] ++ [']']) := by
      simp [css, itemsCss, listText, itemText]
    rw [ht]
    exact hl.lastComma.brackets

theorem appears_commas {v w : Value} {rest : List Value}
    (h : ∀ x ∈ v :: w :: rest, x.Appears) (bracketed : Bool) :
    (list (v :: w :: rest) .comma bracketed).Appears := by
  obtain ⟨tss, hl, hr⟩ := Source.exists_tokens (forall₂_itemText h)
  obtain _ | ⟨hv, _ | ⟨hw, hrest⟩⟩ := hl
  have hitems := Lexes.items (.cons hv (.cons hw hrest)) (List.cons_ne_nil _ _)
  cases bracketed with
  | false =>
    refine ⟨nofun, _, ?_, .item ⟨rfl, fun _ => rfl⟩ (Source.stands_list hr)⟩
    rw [rowText_list, toList_css_list]
    exact hitems.parens
  | true =>
    refine .of_stands ?_ (Source.stands_list_brackets hr) ⟨rfl, fun _ => rfl⟩ rfl rfl
    rw [toList_css_list]
    exact hitems.brackets

theorem appears_spaces {v w : Value} {rest : List Value}
    (h : ∀ x ∈ v :: w :: rest, x.Appears) (bracketed : Bool) :
    (list (v :: w :: rest) .space bracketed).Appears := by
  obtain ⟨ts, hfirst, hstands⟩ := (h v List.mem_cons_self).first
  obtain ⟨tss, hl, hr⟩ := exists_nexts fun x hx => h x (List.mem_cons_of_mem v hx)
  have hreads := Source.reads_row hstands hr
  have hlexes := hfirst.row hl
  cases bracketed with
  | false =>
    refine ⟨fun _ => ⟨_, ?_, hreads⟩, _, ?_,
      .item ⟨rfl, fun _ => rfl⟩ (Source.stands_parens hreads)⟩
    · rw [toList_css_list]
      exact hlexes
    · rw [rowText_list, toList_css_list]
      exact hlexes.parens
  | true =>
    refine .of_stands ?_ (Source.stands_brackets hreads) ⟨rfl, fun _ => rfl⟩ rfl rfl
    rw [toList_css_list]
    exact hlexes.brackets

theorem appears_brackets {v : Value} (h : v.Appears) (hv : v.isOpen = false) :
    (list [v] .undecided true).Appears := by
  obtain ⟨ts, hl, hr⟩ := h.alone (isRow_of_isOpen hv)
  have hs := Source.stands_brackets hr
  rw [inBrackets_reading hv] at hs
  refine .of_stands ?_ hs ⟨rfl, fun _ => rfl⟩ rfl rfl
  have ht : (list [v] .undecided true).css.toList = '[' :: (v.css.toList ++ [']']) := by
    simp [css, itemsCss, listText, parens, inParens_of_isOpen hv, Separator.joiner]
  rw [ht]
  exact hl.brackets

mutual

theorem appears (v : Value) (hs : v.IsShown) (hd : v.IsDelimited) : v.Appears := by
  match v with
  | null =>
    exact .of_stands Source.lexes_null (Source.stands_token fun _ => rfl)
      ⟨rfl, fun _ => rfl⟩ rfl rfl
  | bool b =>
    refine .of_stands (Source.lexes_bool b) (Source.stands_token fun _ => ?_) ?_ rfl rfl
    · cases b <;> rfl
    · cases b <;> exact ⟨rfl, fun _ => rfl⟩
  | number n =>
    obtain ⟨k, rfl⟩ := hs
    exact appears_integer k
  | string text =>
    exact .of_stands (Source.lexes_string hs) (Source.stands_token fun _ => rfl)
      ⟨rfl, fun _ => rfl⟩ rfl rfl
  | list items separator bracketed =>
    obtain ⟨hform, hitems⟩ := hs
    have hall := all_appear items hitems hd.2
    match separator, items, hform with
    | .comma, [v], _ => exact appears_one (hall v List.mem_cons_self) bracketed
    | .comma, v :: w :: rest, _ => exact appears_commas hall bracketed
    | .space, v :: w :: rest, _ => exact appears_spaces hall bracketed
    | .undecided, [v], ⟨hb, _⟩ =>
      subst hb
      exact appears_brackets (hall v List.mem_cons_self) (hd.1 rfl v List.mem_cons_self)
  | map pairs => exact appears_pairs hs.1 (pairs_appear pairs hs.2.2 hd)
  | color _ => exact hs.elim
  | custom .. => exact hs.elim

theorem all_appear (items : List Value) (hs : AllShown items) (hd : AllDelimited items) :
    ∀ v ∈ items, v.Appears := by
  match items with
  | [] => nofun
  | v :: rest =>
    exact List.forall_mem_cons.mpr ⟨appears v hs.1 hd.1, all_appear rest hs.2 hd.2⟩

theorem pairs_appear (pairs : List (Value × Value)) (hs : PairsShown pairs)
    (hd : PairsDelimited pairs) :
    ∀ pair ∈ pairs, pair.1.isRow = false ∧ pair.1.Appears ∧ pair.2.Appears := by
  match pairs with
  | [] => nofun
  | (key, v) :: rest =>
    exact List.forall_mem_cons.mpr ⟨⟨hd.1, appears key hs.1 hd.2.1, appears v hs.2.1 hd.2.2.1⟩,
      pairs_appear rest hs.2.2 hd.2.2.2⟩

end

theorem exists_reading (v : Value) (hs : v.IsShown) (hd : v.IsDelimited) :
    ∃ ts r, Lexes v.css.toList ts ∧ Source.pushAll Source.Reading.push? .start ts = some r ∧
      r.finish? = some v.reading ∧ r.fault = none := by
  cases hrow : v.isRow with
  | false =>
    obtain ⟨ts, hl, hr⟩ := (appears v hs hd).alone hrow
    obtain ⟨inner, operand, hread, hc⟩ := hr [] rfl
    exact ⟨ts, _, hl, hread, Source.Reading.finish?_of_closeItem hc rfl, rfl⟩
  | true =>
    -- No parentheses are around a row at the top, so its items are read above nothing.
    obtain ⟨x, y, rest, rfl⟩ := exists_of_isRow hrow
    have hall := all_appear _ hs.2 hd.2
    obtain ⟨tss, hl, hr⟩ := Source.exists_tokens (forall₂_itemText hall)
    obtain _ | ⟨hx, _ | ⟨hy, hrest⟩⟩ := hl
    have hitems := Lexes.items (.cons hx (.cons hy hrest)) (List.cons_ne_nil _ _)
    rw [← List.map_cons, ← List.map_cons, ← toList_css_list_comma] at hitems
    obtain ⟨inner, operand, last, e, earlier, hread, hc, he⟩ :=
      Source.reads_several hr (Or.inl rfl)
    refine ⟨_, _, hitems, hread, Source.Reading.finish?_of_closeItem hc ?_, rfl⟩
    simp only [Source.Reading.closeCommas, he]
    rfl

theorem readExpr_css (v : Value) (hs : v.IsShown) (hd : v.IsDelimited) :
    Source.readExpr v.css = .ok v.reading := by
  obtain ⟨ts, r, hl, hread, hfinish, hfault⟩ := exists_reading v hs hd
  have hts : ¬ Source.Broken ts := by
    intro hb
    rw [Source.Reading.pushAll_broken hb] at hread
    cases hread
  rw [Source.readExpr_eq_ok_iff, hl.tokens_eq hts]
  exact ⟨r, hread, hfinish, hfault⟩

end SassData.Value
