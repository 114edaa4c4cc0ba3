import SassData.Proofs.Source.SheetConcatenation

/-!
# What reading puts together

Reading makes expressions of what tokens stand for: literals, variables and names of functions. So
what is asked of expressions is met by all that is read if it is met by these leaves, goes along
with each way of putting expressions together, and null meets it, which takes the place of what made
no sense.
-/

namespace SassData

set_option autoImplicit false

def Statement.exprs : Statement → List Expr
  | .assign _ e _ => [e]
  | .rule _ declarations => declarations.map Prod.snd
  | .debug e => [e]
  | .error e => [e]

def Statement.declared : Statement → List String
  | .assign name _ _ => [name]
  | .rule _ _ | .debug _ | .error _ => []

namespace Source

/-! ## Tokens of a text -/

/-- A token stands somewhere in a text, cut from its front in some place. -/
def IsToken (t : Token) : Prop := ∃ (mode : Mode) (text rest : List Char),
  mode.token? text = some (t, rest)

theorem isToken_of_mem {mode : Mode} {text : List Char} {t : Token} (h : t ∈ tokens mode text) :
    t = .unknown ∨ IsToken t := by
  induction hl : text.length using Nat.strongRecOn generalizing mode text with
  | ind length ih =>
  subst hl
  by_cases hne : text = []
  · subst hne
    cases h
  cases hb : afterBlank? text with
  | some rest =>
    rw [tokens_of_blank hb] at h
    exact ih rest.length (leaves_of_afterBlank? hb).length_lt h rfl
  | none =>
    cases ht : mode.token? text with
    | none =>
      rw [tokens_of_none hb ht hne] at h
      exact Or.inl (List.mem_singleton.mp h)
    | some found =>
      obtain ⟨u, rest⟩ := found
      rw [tokens_of_token hb ht] at h
      rcases List.mem_cons.mp h with rfl | h
      · exact Or.inr ⟨mode, text, rest, ht⟩
      · exact ih rest.length (leaves_of_token? ht).length_lt h rfl

/-- The literal that a token is where an operand begins. -/
inductive Token.Denotes : Token → Value → Prop
  | number (n : Number) : Denotes (.number n) (.number n)
  | string (text : String) : Denotes (.string text) (.string text)
  | hash {text : String} {c : Color} (h : Color.ofHex? text = some c) :
    Denotes (.hash text) (.color c)
  | word (word : String) : Denotes (.word word) (Reading.wordValue word)

/-! ## Demands -/

/-- What is asked of what is read: of expressions, of the names of functions that they call and of
the names of variables. -/
structure Demand where
  expr : Expr → Prop
  function : String → Prop
  name : String → Prop

/-- The demand goes along with how expressions are put together. -/
structure Demand.IsClosed (D : Demand) : Prop where
  null : D.expr (.literal .null)
  name : ∀ {name}, D.name name → D.expr (.variable name)
  unary : ∀ {op e}, D.expr e → D.expr (.unary op e)
  binary : ∀ {op left right}, D.expr left → D.expr right → D.expr (.binary op left right)
  list : ∀ {items separator bracketed}, (∀ e ∈ items, D.expr e) →
    D.expr (.list items separator bracketed)
  brackets : ∀ {items separator}, D.expr (.list items separator false) →
    D.expr (.list items separator true)
  map : ∀ {pairs}, (∀ pair ∈ pairs, D.expr pair.1 ∧ D.expr pair.2) → D.expr (.map pairs)
  call : ∀ {function arguments keywords spread}, D.function function →
    (∀ e ∈ arguments, D.expr e) → (∀ keyword ∈ keywords, D.expr keyword.2) →
    (∀ e, spread = some e → D.expr e) → D.expr (.call function arguments keywords spread)

theorem Demand.IsClosed.list_reverse {D : Demand} (hD : D.IsClosed) {before : List Expr}
    {separator : Separator} {bracketed : Bool} (h : ∀ e ∈ before, D.expr e) :
    D.expr (.list before.reverse separator bracketed) :=
  hD.list fun e he => h e (List.mem_reverse.mp he)

theorem Demand.IsClosed.map_reverse {D : Demand} (hD : D.IsClosed) {before : List (Expr × Expr)}
    (h : ∀ pair ∈ before, D.expr pair.1 ∧ D.expr pair.2) : D.expr (.map before.reverse) :=
  hD.map fun pair hp => h pair (List.mem_reverse.mp hp)

/-! ## One token after another -/

section

variable (D : Demand)

structure Token.Satisfies (t : Token) : Prop where
  value : ∀ v, t.Denotes v → D.expr (.literal v)
  function : ∀ name, t = .call name → D.function name
  name : ∀ name, t = .variable name → D.name (Text.canonicalName name)

def Argument.Satisfies : Argument → Prop
  | .positional e | .keyword _ e | .spread e => D.expr e

def Frame.Satisfies : Frame → Prop
  | .unary _ | .paren | .bracket => True
  | .binary left _ => D.expr left
  | .spaced before | .commas before => ∀ e ∈ before, D.expr e
  | .mapKey before => ∀ pair ∈ before, D.expr pair.1 ∧ D.expr pair.2
  | .mapValue before key =>
    (∀ pair ∈ before, D.expr pair.1 ∧ D.expr pair.2) ∧ D.expr key
  | .argument function before | .keyword function before _ =>
    D.function function ∧ ∀ argument ∈ before, argument.Satisfies D

def Focus.Satisfies : Focus → Prop
  | .operand e => D.expr e
  | .variable name => D.name name
  | .nothing | .complete => True

structure Reading.Satisfies (r : Reading) : Prop where
  frames : ∀ frame ∈ r.frames, frame.Satisfies D
  focus : r.focus.Satisfies D

end

namespace Reading

variable {D : Demand} {r s : Reading} {frames : List Frame} {e : Expr} {t : Token}

def ClosedSatisfy (D : Demand) (closed : List Frame × Expr) : Prop :=
  (∀ frame ∈ closed.1, frame.Satisfies D) ∧ D.expr closed.2

theorem closed_closeOperators (hD : D.IsClosed) (level : Nat) (h : ClosedSatisfy D (frames, e)) :
    ClosedSatisfy D (closeOperators level frames e) := by
  fun_induction closeOperators level frames e with
  | case1 op frames e ih =>
    exact ih ⟨fun frame hf => h.1 frame (List.mem_cons_of_mem _ hf), hD.unary h.2⟩
  | case2 left op frames e hl ih =>
    exact ih ⟨fun frame hf => h.1 frame (List.mem_cons_of_mem _ hf),
      hD.binary (h.1 _ List.mem_cons_self) h.2⟩
  | case3 => exact h
  | case4 => exact h

theorem closed_closeItem (hD : D.IsClosed) (h : ClosedSatisfy D (frames, e)) :
    ClosedSatisfy D (closeItem frames e) := by
  have hc := closed_closeOperators hD 0 h
  unfold closeItem
  split
  · next before below item he =>
    rw [he] at hc
    have hbefore : ∀ e ∈ before, D.expr e := hc.1 _ List.mem_cons_self
    exact ⟨fun frame hf => hc.1 frame (List.mem_cons_of_mem _ hf),
      hD.list_reverse (List.forall_mem_cons.mpr ⟨hc.2, hbefore⟩)⟩
  · exact hc

theorem closed_closeCommas (hD : D.IsClosed) (h : ClosedSatisfy D (frames, e)) :
    ClosedSatisfy D (closeCommas frames e) := by
  unfold closeCommas
  split
  · next before below =>
    have hbefore : ∀ e ∈ before, D.expr e := h.1 _ List.mem_cons_self
    exact ⟨fun frame hf => h.1 frame (List.mem_cons_of_mem _ hf),
      hD.list_reverse (List.forall_mem_cons.mpr ⟨h.2, hbefore⟩)⟩
  · exact h

theorem satisfies_open {frame : Frame} {fault : Option Failure} (hframe : frame.Satisfies D)
    (hframes : ∀ frame ∈ frames, frame.Satisfies D) :
    (⟨frame :: frames, .nothing, fault⟩ : Reading).Satisfies D :=
  ⟨List.forall_mem_cons.mpr ⟨hframe, hframes⟩, trivial⟩

theorem expr_callOf {function : String} {arguments : List Argument} (hD : D.IsClosed)
    (hfunction : D.function function) (h : ∀ argument ∈ arguments, argument.Satisfies D) :
    D.expr (callOf function arguments) := by
  refine hD.call hfunction (fun e he => ?_) (fun keyword hk => ?_) (fun e hspread => ?_)
  · obtain ⟨argument, ha, hsome⟩ := List.mem_filterMap.mp he
    have hargument := h argument ha
    cases argument <;> cases hsome
    exact hargument
  · obtain ⟨argument, ha, hsome⟩ := List.mem_filterMap.mp hk
    have hargument := h argument ha
    cases argument <;> cases hsome
    exact hargument
  · obtain ⟨argument, ha, hsome⟩ := List.exists_of_findSome?_eq_some hspread
    have hargument := h argument (List.mem_reverse.mp ha)
    cases argument <;> cases hsome
    exact hargument

theorem satisfies_closeCall {function : String} {before : List Argument} (hD : D.IsClosed)
    (hf : ∀ frame ∈ frames, frame.Satisfies D) (hb : (Frame.argument function before).Satisfies D) :
    (r.closeCall frames function before).Satisfies D := by
  obtain ⟨hfunction, hb⟩ := hb
  simp only [closeCall]
  split
  · exact ⟨hf, hD.null⟩
  · exact ⟨hf, expr_callOf hD hfunction fun argument ha => hb argument (List.mem_reverse.mp ha)⟩

theorem satisfies_begin? (hr : r.Satisfies D) (hD : D.IsClosed) (ht : t.Satisfies D)
    (h : r.begin? t = some s) : s.Satisfies D := by
  have hopening (frame : Frame) (hframe : frame.Satisfies D) :
      (⟨frame :: r.frames, .nothing, r.fault⟩ : Reading).Satisfies D :=
    satisfies_open hframe hr.frames
  unfold begin? at h
  split at h
  · cases h
    exact ⟨hr.frames, ht.value _ (.number _)⟩
  · cases h
    exact ⟨hr.frames, ht.value _ (.string _)⟩
  · split at h <;> cases h
    · next hc => exact ⟨hr.frames, ht.value _ (.hash hc)⟩
    · exact ⟨hr.frames, hD.null⟩
  · cases h
    exact ⟨hr.frames, ht.name _ rfl⟩
  · split at h <;> cases h
    · exact hopening _ trivial
    · exact ⟨hr.frames, ht.value _ (.word _)⟩
  · cases h
    exact hopening _ ⟨ht.function _ rfl, nofun⟩
  · cases h
    exact hopening _ trivial
  · cases h
    exact hopening _ trivial
  · cases h
    exact hopening _ trivial
  · cases h

theorem satisfies_endEmpty? (hr : r.Satisfies D) (hD : D.IsClosed)
    (h : r.endEmpty? t = some s) : s.Satisfies D := by
  obtain ⟨frames, focus, fault⟩ := r
  have hframes : ∀ frame ∈ frames, frame.Satisfies D := hr.frames
  unfold endEmpty? at h
  split at h
  · next hf =>
    subst hf
    cases h
    exact ⟨(List.forall_mem_cons.mp hframes).2, hD.list nofun⟩
  · next hf =>
    subst hf
    cases h
    obtain ⟨hb, hrest⟩ := List.forall_mem_cons.mp hframes
    exact ⟨(List.forall_mem_cons.mp hrest).2, hD.list_reverse hb⟩
  · next hf =>
    subst hf
    obtain ⟨hb, hbelow⟩ := List.forall_mem_cons.mp hframes
    split at h <;> cases h
    exact ⟨hbelow, hD.map_reverse hb⟩
  · next hf =>
    subst hf
    obtain ⟨hb, hbelow⟩ := List.forall_mem_cons.mp hframes
    cases h
    exact satisfies_closeCall hD hbelow hb
  · next hf =>
    subst hf
    cases h
    exact ⟨(List.forall_mem_cons.mp hframes).2, hD.list nofun⟩
  · next hf =>
    subst hf
    cases h
    obtain ⟨hb, hrest⟩ := List.forall_mem_cons.mp hframes
    exact ⟨(List.forall_mem_cons.mp hrest).2, hD.list_reverse hb⟩
  · cases h

theorem satisfies_comma? (hc : ClosedSatisfy D (frames, e)) (h : r.comma? frames e = some s) :
    s.Satisfies D := by
  obtain ⟨hframes, he⟩ := hc
  have hone : (Frame.commas [e]).Satisfies D := List.forall_mem_singleton.mpr he
  unfold comma? at h
  split at h
  · next before below =>
    cases h
    obtain ⟨hb, hbelow⟩ := List.forall_mem_cons.mp hframes
    have hcommas : (Frame.commas (e :: before)).Satisfies D := List.forall_mem_cons.mpr ⟨he, hb⟩
    exact satisfies_open hcommas hbelow
  · next before key below =>
    cases h
    obtain ⟨⟨hb, hkey⟩, hbelow⟩ := List.forall_mem_cons.mp hframes
    have hpairs : (Frame.mapKey ((key, e) :: before)).Satisfies D :=
      List.forall_mem_cons.mpr ⟨⟨hkey, he⟩, hb⟩
    exact satisfies_open hpairs hbelow
  · next function before below =>
    cases h
    obtain ⟨hb, hbelow⟩ := List.forall_mem_cons.mp hframes
    have harguments : (Frame.argument function (.positional e :: before)).Satisfies D :=
      ⟨hb.1, List.forall_mem_cons.mpr ⟨he, hb.2⟩⟩
    exact satisfies_open harguments hbelow
  · next function before name below =>
    cases h
    obtain ⟨hb, hbelow⟩ := List.forall_mem_cons.mp hframes
    have harguments : (Frame.argument function (.keyword name e :: before)).Satisfies D :=
      ⟨hb.1, List.forall_mem_cons.mpr ⟨he, hb.2⟩⟩
    exact satisfies_open harguments hbelow
  · cases h
    exact satisfies_open hone hframes
  · cases h
    exact satisfies_open hone hframes
  · cases h
    exact satisfies_open hone hframes
  · cases h

theorem satisfies_colon? (hc : ClosedSatisfy D (frames, e)) (h : r.colon? frames e = some s) :
    s.Satisfies D := by
  obtain ⟨hframes, he⟩ := hc
  unfold colon? at h
  split at h
  · cases h
    have hkey : (Frame.mapValue [] e).Satisfies D := ⟨fun pair hp => (nomatch hp), he⟩
    exact satisfies_open hkey (List.forall_mem_cons.mp hframes).2
  · next before below =>
    cases h
    obtain ⟨hb, hbelow⟩ := List.forall_mem_cons.mp hframes
    have hkey : (Frame.mapValue before e).Satisfies D := ⟨hb, he⟩
    exact satisfies_open hkey hbelow
  · cases h

theorem satisfies_closeParen? (hD : D.IsClosed) (hc : ClosedSatisfy D (frames, e))
    (h : r.closeParen? frames e = some s) : s.Satisfies D := by
  obtain ⟨hframes, he⟩ := hc
  unfold closeParen? at h
  split at h
  · cases h
    obtain ⟨hb, hrest⟩ := List.forall_mem_cons.mp hframes
    exact ⟨(List.forall_mem_cons.mp hrest).2,
      hD.list_reverse (List.forall_mem_cons.mpr ⟨he, hb⟩)⟩
  · cases h
    exact ⟨(List.forall_mem_cons.mp hframes).2, he⟩
  · cases h
    obtain ⟨⟨hb, hkey⟩, hbelow⟩ := List.forall_mem_cons.mp hframes
    exact ⟨hbelow, hD.map_reverse (List.forall_mem_cons.mpr ⟨⟨hkey, he⟩, hb⟩)⟩
  · cases h
    obtain ⟨hb, hbelow⟩ := List.forall_mem_cons.mp hframes
    exact satisfies_closeCall hD hbelow ⟨hb.1, List.forall_mem_cons.mpr ⟨he, hb.2⟩⟩
  · cases h
    obtain ⟨hb, hbelow⟩ := List.forall_mem_cons.mp hframes
    exact satisfies_closeCall hD hbelow ⟨hb.1, List.forall_mem_cons.mpr ⟨he, hb.2⟩⟩
  · cases h

theorem satisfies_nextItem? (hD : D.IsClosed) (ht : t.Satisfies D)
    (hc : ClosedSatisfy D (r.frames, e)) (h : r.nextItem? e t = some s) : s.Satisfies D := by
  have hclosed := closed_closeOperators hD 0 hc
  simp only [nextItem?] at h
  generalize closeOperators 0 r.frames e = closed at h hclosed
  -- Only a row that has begun takes the item up; above any other frame a new row begins.
  obtain ⟨frames, item⟩ := closed
  obtain ⟨hframes, hi⟩ : (∀ frame ∈ frames, frame.Satisfies D) ∧ D.expr item := hclosed
  have hone : (Frame.spaced [item]).Satisfies D := List.forall_mem_singleton.mpr hi
  rcases frames with _ | ⟨frame, frames⟩
  · exact satisfies_begin? (satisfies_open hone hframes) hD ht h
  · cases frame with
    | spaced before =>
      obtain ⟨hb, hbelow⟩ := List.forall_mem_cons.mp hframes
      have hitems : (Frame.spaced (item :: before)).Satisfies D :=
        List.forall_mem_cons.mpr ⟨hi, hb⟩
      exact satisfies_begin? (satisfies_open hitems hbelow) hD ht h
    | _ => exact satisfies_begin? (satisfies_open hone hframes) hD ht h

theorem expr_inBrackets (hD : D.IsClosed) (h : D.expr e) : D.expr (inBrackets e) := by
  unfold inBrackets
  split
  · exact hD.brackets h
  · exact hD.list (List.forall_mem_singleton.mpr h)

theorem satisfies_continue? (hD : D.IsClosed) (ht : t.Satisfies D)
    (hc : ClosedSatisfy D (r.frames, e)) (h : r.continue? e t = some s) : s.Satisfies D := by
  have hclosed := closed_closeItem hD hc
  cases hop : binaryOp? t with
  | some op =>
    obtain ⟨hframes, hleft⟩ := closed_closeOperators hD op.level hc
    simp only [continue?, hop] at h
    cases h
    have hbinary : (Frame.binary (closeOperators op.level r.frames e).2 op).Satisfies D := hleft
    exact satisfies_open hbinary hframes
  | none =>
    simp only [continue?, hop] at h
    generalize closeItem r.frames e = closed at h hclosed
    obtain ⟨frames, item⟩ := closed
    split at h
    · exact satisfies_comma? hclosed h
    · exact satisfies_colon? hclosed h
    · exact satisfies_closeParen? hD hclosed h
    · have hcommas : ClosedSatisfy D (closeCommas frames item) := closed_closeCommas hD hclosed
      split at h
      · next he =>
        cases h
        rw [he] at hcommas
        exact ⟨(List.forall_mem_cons.mp hcommas.1).2, expr_inBrackets hD hcommas.2⟩
      · cases h
    · obtain ⟨hframes, hi⟩ : (∀ frame ∈ frames, frame.Satisfies D) ∧ D.expr item :=
        hclosed
      rcases frames with _ | ⟨frame, frames⟩
      · cases h
      · cases frame with
        | argument function before =>
          cases h
          obtain ⟨hb, hbelow⟩ := List.forall_mem_cons.mp hframes
          have hframe : (Frame.argument function (.spread item :: before)).Satisfies D :=
            ⟨hb.1, List.forall_mem_cons.mpr ⟨hi, hb.2⟩⟩
          exact ⟨List.forall_mem_cons.mpr ⟨hframe, hbelow⟩, trivial⟩
        | _ => cases h
    · exact satisfies_nextItem? hD ht hc h

/-- One token brings no leaf but its own. -/
theorem satisfies_push? (hr : r.Satisfies D) (hD : D.IsClosed) (ht : t.Satisfies D)
    (h : r.push? t = some s) : s.Satisfies D := by
  obtain ⟨frames, focus, fault⟩ := r
  cases focus with
  | nothing =>
    rcases Option.or_eq_some_iff.mp h with h | ⟨-, h⟩
    · exact satisfies_begin? hr hD ht h
    · exact satisfies_endEmpty? hr hD h
  | «variable» name =>
    simp only [push?, afterVariable?] at h
    split at h
    · next hf =>
      cases h
      exact ⟨by simpa [Frame.Satisfies] using hr.frames, trivial⟩
    · have hc : ClosedSatisfy D (frames, .variable name) := ⟨hr.frames, hD.name hr.focus⟩
      exact satisfies_continue? hD ht hc h
  | operand e => exact satisfies_continue? hD ht ⟨hr.frames, hr.focus⟩ h
  | complete =>
    simp only [push?, afterArgument?] at h
    split at h
    · cases h
      exact ⟨hr.frames, trivial⟩
    · cases h
      obtain ⟨hb, hbelow⟩ := List.forall_mem_cons.mp hr.frames
      exact satisfies_closeCall hD hbelow hb
    · cases h

theorem satisfies_pushAll {ts : List Token} (hD : D.IsClosed) (ht : ∀ t ∈ ts, t.Satisfies D)
    (hr : r.Satisfies D) (h : pushAll push? r ts = some s) : s.Satisfies D :=
  pushAll_keeps (fun t hmem _ _ hr hnext => satisfies_push? hr hD (ht t hmem) hnext) hr h

theorem expr_finish? (hD : D.IsClosed) (hr : r.Satisfies D) (h : r.finish? = some e) :
    D.expr e := by
  obtain ⟨frames, focus, fault⟩ := r
  have hclosed (x : Expr) (hx : D.expr x)
      (h : finish? ⟨frames, .operand x, fault⟩ = some e) : D.expr e := by
    have hc : ClosedSatisfy D (closeItem frames x) := closed_closeItem hD ⟨hr.frames, hx⟩
    have hcommas : ClosedSatisfy D (closeCommas (closeItem frames x).1 (closeItem frames x).2) :=
      closed_closeCommas hD hc
    rw [finish?_operand_eq_some_iff.mp h] at hcommas
    exact hcommas.2
  cases focus with
  | nothing =>
    simp only [finish?] at h
    split at h
    · next before =>
      cases h
      have hb : ∀ e ∈ before, D.expr e := hr.frames _ List.mem_cons_self
      exact hD.list_reverse hb
    · cases h
  | «variable» name => exact hclosed (.variable name) (hD.name hr.focus) h
  | operand x => exact hclosed x hr.focus h
  | complete => cases h

end Reading

/-! ## Whole texts -/

/-- The demand is closed, and the tokens of all texts satisfy it. -/
structure Demand.IsMet (D : Demand) : Prop where
  closed : D.IsClosed
  token : ∀ {t}, IsToken t → t.Satisfies D

theorem Demand.IsMet.satisfies {D : Demand} (hD : D.IsMet) {mode : Mode} {text : List Char} :
    ∀ t ∈ tokens mode text, t.Satisfies D := by
  intro t ht
  rcases isToken_of_mem ht with rfl | htoken
  · exact ⟨nofun, nofun, nofun⟩
  · exact hD.token htoken

theorem Demand.IsMet.readExpr {D : Demand} (hD : D.IsMet) {text : String} {e : Expr}
    (h : readExpr text = .ok e) : D.expr e := by
  -- Nothing is read at the start, and each token that follows brings no leaf but its own.
  obtain ⟨r, hr, hfinish, -⟩ := readExpr_eq_ok_iff.mp h
  have hstart : Reading.start.Satisfies D := ⟨nofun, trivial⟩
  exact Reading.expr_finish? hD.closed
    (Reading.satisfies_pushAll hD.closed hD.satisfies hstart hr) hfinish

section

variable (D : Demand)

def OpenRule.Satisfies (rule : OpenRule) : Prop :=
  ∀ declaration ∈ rule.before, D.expr declaration.2

def Owner.Satisfies : Owner → Prop
  | .declaration rule _ => rule.Satisfies D
  | .assignment name => D.name name
  | .debug | .error => True

def Place.Satisfies : Place → Prop
  | .between => True
  | .named owner => owner.Satisfies D
  | .inside owner reading => owner.Satisfies D ∧ reading.Satisfies D
  | .flagged name e _ => D.name name ∧ D.expr e
  | .selected rule | .block rule => rule.Satisfies D

structure Statement.Satisfies (statement : Statement) : Prop where
  exprs : ∀ e ∈ statement.exprs, D.expr e
  declared : ∀ name ∈ statement.declared, D.name name

structure SheetReading.Satisfies (s : SheetReading) : Prop where
  before : ∀ statement ∈ s.before, Statement.Satisfies D statement
  place : s.place.Satisfies D

end

namespace SheetReading

variable {D : Demand} {s s' : SheetReading} {t : Token}

theorem satisfies_conclude {before : List Statement} {place : Place} {fault : Option Failure}
    {owner : Owner} {e : Expr} (hb : ∀ statement ∈ before, Statement.Satisfies D statement)
    (ho : owner.Satisfies D) (he : D.expr e) :
    (conclude ⟨before, place, fault⟩ owner e).Satisfies D := by
  have hone : ∀ x ∈ [e], D.expr x := List.forall_mem_singleton.mpr he
  cases owner with
  | assignment name =>
    have hname : ∀ x ∈ [name], D.name x := List.forall_mem_singleton.mpr ho
    exact ⟨List.forall_mem_cons.mpr ⟨⟨hone, hname⟩, hb⟩, trivial⟩
  | declaration rule property => exact ⟨hb, List.forall_mem_cons.mpr ⟨he, ho⟩⟩
  | debug => exact ⟨List.forall_mem_cons.mpr ⟨⟨hone, nofun⟩, hb⟩, trivial⟩
  | error => exact ⟨List.forall_mem_cons.mpr ⟨⟨hone, nofun⟩, hb⟩, trivial⟩

theorem satisfies_push? (hs : s.Satisfies D) (hD : D.IsClosed) (ht : t.Satisfies D)
    (h : s.push? t = some s') : s'.Satisfies D := by
  have hstart : Reading.start.Satisfies D := ⟨nofun, trivial⟩
  obtain ⟨hb, hp⟩ := hs
  cases takes_of_push? h with
  | assignment _ _ name => exact ⟨hb, ht.name name rfl⟩
  | debug | error => exact ⟨hb, trivial, hstart⟩
  | selector => exact ⟨hb, nofun⟩
  | colon => exact ⟨hb, hp, hstart⟩
  | inside _ _ _ _ hnext => exact ⟨hb, hp.1, Reading.satisfies_push? hp.2 hD ht hnext⟩
  | conclude _ _ _ hfinish =>
    exact satisfies_conclude hb hp.1 (Reading.expr_finish? hD hp.2 hfinish)
  | flag _ _ _ _ hfinish => exact ⟨hb, hp.1, Reading.expr_finish? hD hp.2 hfinish⟩
  | nextFlag | openBlock | property => exact ⟨hb, hp⟩
  | endFlags _ _ name e flags =>
    have hstatement : Statement.Satisfies D (.assign name e flags) :=
      ⟨List.forall_mem_singleton.mpr hp.2, List.forall_mem_singleton.mpr hp.1⟩
    exact ⟨List.forall_mem_cons.mpr ⟨hstatement, hb⟩, trivial⟩
  | closeBlock before fault rule =>
    refine ⟨List.forall_mem_cons.mpr ⟨⟨?_, nofun⟩, hb⟩, trivial⟩
    intro e he
    obtain ⟨declaration, hd, rfl⟩ := List.mem_map.mp he
    exact hp declaration (List.mem_reverse.mp hd)

theorem satisfies_pushAll {ts : List Token} (hD : D.IsClosed) (ht : ∀ t ∈ ts, t.Satisfies D)
    (hs : s.Satisfies D) (h : pushAll push? s ts = some s') : s'.Satisfies D :=
  pushAll_keeps (fun t hmem _ _ hs hnext => satisfies_push? hs hD (ht t hmem) hnext) hs h

end SheetReading

theorem Demand.IsMet.readSheet {D : Demand} (hD : D.IsMet) {text : String}
    {statements : List Statement} (h : readSheet text = .ok statements) :
    ∀ statement ∈ statements, Statement.Satisfies D statement := by
  obtain ⟨s, hs, hfinish, -⟩ := readSheet_eq_ok_iff.mp h
  obtain ⟨-, rfl⟩ := SheetReading.finish?_eq_some_iff.mp hfinish
  have hstart : SheetReading.start.Satisfies D := ⟨nofun, trivial⟩
  have hlast := SheetReading.satisfies_pushAll hD.closed hD.satisfies hstart hs
  intro statement hm
  exact hlast.before statement (List.mem_reverse.mp hm)

end Source

end SassData
