import SassData.Proofs.Source.TokenReading

/-!
# What is open while an expression is read

The frames of brackets, calls and lists, without those of operators and of items side by side. A
token opens one, closes one, turns one into another or leaves them alone, and the list of commas at
the bottom is there for good. So the brackets of an expression go off in pairs, and a comma behind
an expression that has none of its own at the top makes a list of which the expression is an item.
-/

namespace SassData.Source

set_option autoImplicit false

/-- How many more brackets are open after a token. A call brings its parenthesis. -/
def Token.turn : Token → Int
  | .call _ | .symbol .openParen | .symbol .openBracket => 1
  | .symbol .closeParen | .symbol .closeBracket => -1
  | _ => 0

namespace Frame

def isLoose : Frame → Bool
  | .unary _ | .binary .. | .spaced _ => true
  | _ => false

def isCommas : Frame → Bool
  | .commas _ => true
  | _ => false

def isOpening (frame : Frame) : Bool := !frame.isLoose && !frame.isCommas

end Frame

namespace Reading

def openings (frames : List Frame) : List Frame := frames.filter fun frame => !frame.isLoose

theorem openings_loose {frame : Frame} (h : frame.isLoose = true) (frames : List Frame) :
    openings (frame :: frames) = openings frames := by
  simp [openings, h]

theorem openings_cons {frame : Frame} (h : frame.isLoose = false) (frames : List Frame) :
    openings (frame :: frames) = frame :: openings frames := by
  simp [openings, h]

/-! ## Tokens -/

inductive Moves (t : Token) : List Frame → List Frame → Prop
  | stay (ht : t.turn = 0) (frames : List Frame) : Moves t frames frames
  | opens {f : Frame} (ht : t.turn = 1) (hf : f.isOpening = true) (frames : List Frame) :
    Moves t frames (f :: frames)
  | turns {f g : Frame} (ht : t.turn = 0) (hf : f.isOpening = true) (hg : g.isOpening = true)
    (frames : List Frame) : Moves t (f :: frames) (g :: frames)
  | begins (ht : t = .symbol .comma) (e : Expr) (frames : List Frame) :
    Moves t frames (.commas [e] :: frames)
  | continues (ht : t.turn = 0) (before : List Expr) (e : Expr) (frames : List Frame) :
    Moves t (.commas before :: frames) (.commas (e :: before) :: frames)
  | closes {f : Frame} (ht : t.turn = -1) (hf : f.isOpening = true) (frames : List Frame) :
    Moves t (f :: frames) frames
  | closesList {f : Frame} (ht : t.turn = -1) (hf : f.isOpening = true) (before : List Expr)
    (frames : List Frame) : Moves t (.commas before :: f :: frames) frames

variable {r s : Reading} {t : Token} {e : Expr} {frames : List Frame}

theorem openings_closeOperators (level : Nat) (frames : List Frame) (e : Expr) :
    openings (closeOperators level frames e).1 = openings frames := by
  fun_induction closeOperators level frames e with
  | case1 op frames e ih => rw [ih, openings_loose rfl]
  | case2 left op frames e hl ih => rw [ih, openings_loose rfl]
  | case3 left op frames e hl => rfl
  | case4 frames e hu hb => rfl

theorem openings_closeItem (frames : List Frame) (e : Expr) :
    openings (closeItem frames e).1 = openings frames := by
  rw [← openings_closeOperators 0 frames e, closeItem]
  split
  · next hc => rw [hc, openings_loose rfl]
  · rfl

theorem frames_closeCall (r : Reading) (frames : List Frame) (function : String)
    (before : List Argument) : (r.closeCall frames function before).frames = frames := by
  simp only [closeCall]
  split <;> rfl

theorem moves_begin? (h : r.begin? t = some s) :
    Moves t (openings r.frames) (openings s.frames) := by
  unfold begin? at h
  split at h
  · cases h
    exact .stay rfl _
  · cases h
    exact .stay rfl _
  · split at h <;> cases h
    · exact .stay rfl _
    · exact .stay rfl _
  · cases h
    exact .stay rfl _
  · split at h <;> cases h
    · rw [openings_loose rfl]
      exact .stay rfl _
    · exact .stay rfl _
  · cases h
    rw [openings_cons rfl]
    exact .opens rfl rfl _
  · cases h
    rw [openings_loose rfl]
    exact .stay rfl _
  · cases h
    rw [openings_cons rfl]
    exact .opens rfl rfl _
  · cases h
    rw [openings_cons rfl]
    exact .opens rfl rfl _
  · cases h

theorem moves_endEmpty? (h : r.endEmpty? t = some s) :
    Moves t (openings r.frames) (openings s.frames) := by
  unfold endEmpty? at h
  split at h
  · next hf =>
    cases h
    rw [hf, openings_cons rfl]
    exact .closes rfl rfl _
  · next hf =>
    cases h
    rw [hf, openings_cons rfl, openings_cons rfl]
    exact .closesList rfl rfl _ _
  · next hf =>
    split at h <;> cases h
    rw [hf, openings_cons rfl]
    exact .closes rfl rfl _
  · next hf =>
    cases h
    rw [hf, openings_cons rfl, frames_closeCall]
    exact .closes rfl rfl _
  · next hf =>
    cases h
    rw [hf, openings_cons rfl]
    exact .closes rfl rfl _
  · next hf =>
    cases h
    rw [hf, openings_cons rfl, openings_cons rfl]
    exact .closesList rfl rfl _ _
  · cases h

theorem moves_comma? (h : r.comma? frames e = some s) :
    Moves (.symbol .comma) (openings frames) (openings s.frames) := by
  unfold comma? at h
  split at h
  · cases h
    rw [openings_cons rfl, openings_cons rfl]
    exact .continues rfl _ _ _
  · cases h
    rw [openings_cons rfl, openings_cons rfl]
    exact .turns rfl rfl rfl _
  · cases h
    rw [openings_cons rfl, openings_cons rfl]
    exact .turns rfl rfl rfl _
  · cases h
    rw [openings_cons rfl, openings_cons rfl]
    exact .turns rfl rfl rfl _
  · cases h
    rw [openings_cons rfl]
    exact .begins rfl _ _
  · cases h
    rw [openings_cons rfl]
    exact .begins rfl _ _
  · cases h
    rw [openings_cons rfl]
    exact .begins rfl _ _
  · cases h

theorem moves_colon? (h : r.colon? frames e = some s) :
    Moves (.symbol .colon) (openings frames) (openings s.frames) := by
  unfold colon? at h
  split at h <;> cases h
  · rw [openings_cons rfl, openings_cons rfl]
    exact .turns rfl rfl rfl _
  · rw [openings_cons rfl, openings_cons rfl]
    exact .turns rfl rfl rfl _

theorem moves_closeParen? (h : r.closeParen? frames e = some s) :
    Moves (.symbol .closeParen) (openings frames) (openings s.frames) := by
  unfold closeParen? at h
  split at h
  · cases h
    rw [openings_cons rfl, openings_cons rfl]
    exact .closesList rfl rfl _ _
  · cases h
    rw [openings_cons rfl]
    exact .closes rfl rfl _
  · cases h
    rw [openings_cons rfl]
    exact .closes rfl rfl _
  · cases h
    rw [openings_cons rfl, frames_closeCall]
    exact .closes rfl rfl _
  · cases h
    rw [openings_cons rfl, frames_closeCall]
    exact .closes rfl rfl _
  · cases h

theorem moves_nextItem? (h : r.nextItem? e t = some s) :
    Moves t (openings r.frames) (openings s.frames) := by
  have hclosed := openings_closeOperators 0 r.frames e
  simp only [nextItem?] at h
  generalize closeOperators 0 r.frames e = closed at h hclosed
  obtain ⟨frames, item⟩ := closed
  rw [← hclosed]
  have hmoves := moves_begin? h
  dsimp only at hmoves ⊢
  split at hmoves
  · rw [openings_loose rfl] at hmoves ⊢
    exact hmoves
  · rw [openings_loose rfl] at hmoves
    exact hmoves

theorem moves_continue? (h : r.continue? e t = some s) :
    Moves t (openings r.frames) (openings s.frames) := by
  cases hop : binaryOp? t with
  | some op =>
    simp only [continue?, hop] at h
    cases h
    rw [openings_loose rfl, openings_closeOperators]
    unfold binaryOp? at hop
    split at hop <;> first | exact .stay rfl _ | cases hop
  | none =>
    have hclosed := openings_closeItem r.frames e
    simp only [continue?, hop] at h
    generalize closeItem r.frames e = closed at h hclosed
    obtain ⟨frames, item⟩ := closed
    dsimp only at h hclosed
    rw [← hclosed]
    split at h
    · exact moves_comma? h
    · exact moves_colon? h
    · exact moves_closeParen? h
    · split at h
      · next hc =>
        cases h
        unfold closeCommas at hc
        split at hc
        · cases hc
          rw [openings_cons rfl, openings_cons rfl]
          exact .closesList rfl rfl _ _
        · cases hc
          rw [openings_cons rfl]
          exact .closes rfl rfl _
      · cases h
    · split at h
      · cases h
        rw [openings_cons rfl, openings_cons rfl]
        exact .turns rfl rfl rfl _
      · cases h
    · rw [hclosed]
      exact moves_nextItem? h

theorem moves_push? (h : r.push? t = some s) : Moves t (openings r.frames) (openings s.frames) := by
  obtain ⟨frames, focus, fault⟩ := r
  cases focus with
  | nothing =>
    rcases Option.or_eq_some_iff.mp h with h | ⟨-, h⟩
    · exact moves_begin? h
    · exact moves_endEmpty? h
  | «variable» name =>
    simp only [push?, afterVariable?] at h
    split at h
    · cases h
      rw [openings_cons rfl, openings_cons rfl]
      exact .turns rfl rfl rfl _
    · exact moves_continue? h
  | operand e => exact moves_continue? h
  | complete =>
    simp only [push?, afterArgument?] at h
    split at h
    · cases h
      rw [openings_cons rfl]
      exact .turns rfl rfl rfl _
    · cases h
      rw [openings_cons rfl, frames_closeCall]
      exact .closes rfl rfl _
    · cases h

/-! ## Brackets -/

def depth (frames : List Frame) : Int := ((openings frames).filter Frame.isOpening).length

theorem depth_push? (h : r.push? t = some s) : depth s.frames = depth r.frames + t.turn := by
  have hmoves := moves_push? h
  unfold depth
  generalize openings r.frames = a at hmoves
  generalize openings s.frames = b at hmoves
  have hcommas (before : List Expr) : (Frame.commas before).isOpening = false := rfl
  cases hmoves with
  | stay ht => rw [ht, Int.add_zero]
  | opens ht hf => simp [ht, hf]
  | turns ht hf hg => simp [ht, hf, hg]
  | begins ht => simp [ht, hcommas, Token.turn]
  | continues ht => simp [ht, hcommas]
  | closes ht hf =>
    rw [List.filter_cons_of_pos hf, List.length_cons, ht]
    omega
  | closesList ht hf =>
    rw [List.filter_cons_of_neg (by simp [hcommas]), List.filter_cons_of_pos hf, List.length_cons,
      ht]
    omega

/-! ## The list at the bottom -/

/-- What is gathered in the frame that is open longest, if that is a comma list. -/
def gatheredLast? : List Frame → Option (List Expr)
  | [] => none
  | [.commas before] => some before
  | _ :: frames => gatheredLast? frames

theorem gatheredLast?_opening {f : Frame} (hf : f.isOpening = true) (frames : List Frame) :
    gatheredLast? (f :: frames) = gatheredLast? frames := by
  cases f <;> first | rfl | cases hf

theorem gatheredLast?_cons_cons (f g : Frame) (frames : List Frame) :
    gatheredLast? (f :: g :: frames) = gatheredLast? (g :: frames) := by
  cases f <;> rfl

/-- What an expression is made of at the bottom: a list of commas there only grows, and one begins
with a comma outside all brackets. -/
def bottom? (r : Reading) : Option (List Expr) := gatheredLast? (openings r.frames)

theorem bottom?_push? (h : r.push? t = some s) :
    (∃ more, s.bottom? = r.bottom?.map (more ++ ·)) ∨
      (t = .symbol .comma ∧ openings r.frames = []) := by
  have hmoves := moves_push? h
  unfold bottom?
  generalize openings r.frames = a at hmoves
  generalize openings s.frames = b at hmoves
  have hsame (before : Option (List Expr)) : before = before.map ([] ++ ·) := by
    cases before <;> rfl
  cases hmoves with
  | stay => exact Or.inl ⟨[], hsame _⟩
  | opens ht hf =>
    rw [gatheredLast?_opening hf]
    exact Or.inl ⟨[], hsame _⟩
  | turns ht hf hg =>
    rw [gatheredLast?_opening hf, gatheredLast?_opening hg]
    exact Or.inl ⟨[], hsame _⟩
  | begins ht e =>
    cases a with
    | nil => exact Or.inr ⟨ht, rfl⟩
    | cons f a =>
      rw [gatheredLast?_cons_cons]
      exact Or.inl ⟨[], hsame _⟩
  | continues ht before e frames =>
    cases frames with
    | nil => exact Or.inl ⟨[e], rfl⟩
    | cons f frames =>
      rw [gatheredLast?_cons_cons, gatheredLast?_cons_cons]
      exact Or.inl ⟨[], hsame _⟩
  | closes ht hf =>
    rw [gatheredLast?_opening hf]
    exact Or.inl ⟨[], hsame _⟩
  | closesList ht hf =>
    rw [gatheredLast?_cons_cons, gatheredLast?_opening hf]
    exact Or.inl ⟨[], hsame _⟩

theorem bottom?_pushAll {ts : List Token} {before : List Expr} (hr : r.bottom? = some before)
    (h : pushAll push? r ts = some s) : ∃ more, s.bottom? = some (more ++ before) := by
  refine pushAll_keeps (Q := fun r => ∃ more, r.bottom? = some (more ++ before)) ?_ ⟨[], hr⟩ h
  rintro t - r s ⟨more, hr⟩ hs
  rcases bottom?_push? hs with ⟨further, hfurther⟩ | ⟨-, hnone⟩
  · rw [hr] at hfurther
    exact ⟨further ++ more, by rw [hfurther, Option.map_some, List.append_assoc]⟩
  · rw [bottom?, hnone] at hr
    cases hr

/-! ## The end of an expression -/

theorem openings_of_finish? (h : r.finish? = some e) :
    (openings r.frames = [] ∧ r.focus ≠ .nothing) ∨
      ∃ items, r.bottom? = some items ∧ ∃ more, e = .list (more ++ items).reverse .comma false := by
  obtain ⟨frames, focus, fault⟩ := r
  have hclosed (x : Expr) (h : finish? ⟨frames, .operand x, fault⟩ = some e) :
      openings frames = [] ∨ ∃ items, gatheredLast? (openings frames) = some items ∧
        ∃ more, e = .list (more ++ items).reverse .comma false := by
    rw [finish?_operand_eq_some_iff] at h
    rw [← openings_closeItem frames x]
    generalize closeItem frames x = closed at h
    obtain ⟨below, item⟩ := closed
    dsimp only at h ⊢
    unfold closeCommas at h
    split at h
    · next before below =>
      cases h
      exact Or.inr ⟨before, rfl, [item], rfl⟩
    · cases h
      exact Or.inl rfl
  cases focus with
  | nothing =>
    simp only [finish?] at h
    split at h
    · cases h
      exact Or.inr ⟨_, rfl, [], rfl⟩
    · cases h
  | «variable» name =>
    refine (hclosed (.variable name) h).imp_left fun h => ⟨h, ?_⟩
    intro hfocus
    cases hfocus
  | operand x =>
    refine (hclosed x h).imp_left fun h => ⟨h, ?_⟩
    intro hfocus
    cases hfocus
  | complete => cases h

theorem push?_comma (h : r.finish? = some e) (hopen : openings r.frames = [])
    (hfocus : r.focus ≠ .nothing) :
    ∃ s, r.push? (.symbol .comma) = some s ∧ s.bottom? = some [e] := by
  obtain ⟨frames, focus, fault⟩ := r
  have hpush (x : Expr) (hx : finish? ⟨frames, .operand x, fault⟩ = some e) :
      continue? ⟨frames, focus, fault⟩ x (.symbol .comma) =
        some ⟨[.commas [e]], .nothing, fault⟩ := by
    rw [finish?_operand_eq_some_iff] at hx
    have hitem := openings_closeItem frames x
    simp only [continue?, binaryOp?]
    generalize closeItem frames x = closed at hx hitem
    obtain ⟨below, item⟩ := closed
    dsimp only at hx hitem ⊢
    rw [hopen] at hitem
    unfold closeCommas at hx
    split at hx
    · rw [openings_cons rfl] at hitem
      cases hitem
    · cases hx
      rfl
  cases focus with
  | nothing => exact absurd rfl hfocus
  | «variable» name =>
    refine ⟨⟨[.commas [e]], .nothing, fault⟩, ?_, rfl⟩
    have hname := hpush (.variable name) h
    simp only [push?, afterVariable?]
    exact hname
  | operand x => exact ⟨_, hpush x h, rfl⟩
  | complete => cases h

/-- Whatever follows a comma behind an expression with nothing open, it is not read as that
expression: it is an item of what is read. -/
theorem finish?_ne_of_comma {r' : Reading} {ts : List Token} (h : r.finish? = some e)
    (hopen : openings r.frames = []) (hfocus : r.focus ≠ .nothing)
    (hr : pushAll push? r (.symbol .comma :: ts) = some r') : r'.finish? ≠ some e := by
  obtain ⟨s, hs, hbottom⟩ := push?_comma h hopen hfocus
  rw [pushAll_cons, hs] at hr
  obtain ⟨more, hmore⟩ := bottom?_pushAll hbottom hr
  intro he
  rcases openings_of_finish? he with ⟨hnone, -⟩ | ⟨items, hitems, further, hlist⟩
  · rw [bottom?, hnone] at hmore
    cases hmore
  · rw [hmore] at hitems
    cases hitems
    have hmem : e ∈ (further ++ (more ++ [e])).reverse := by simp
    have hsize := List.sizeOf_lt_of_mem hmem
    have hlarger := congrArg sizeOf hlist
    rw [Expr.list.sizeOf_spec] at hlarger
    omega

end Reading

end SassData.Source
