import SassData.Proofs.Source.ArgumentFrames

/-!
# Expressions inside parentheses

What is read on its own is read inside a parenthesis or a bracket as well, token by token: the
frames are the same with the opening and whatever is open around it below them. At the bottom an
opening takes a comma as nothing at all does, so a comma list begins alike. The closing parenthesis
then takes the expression that the reading on its own would end with.
-/

namespace SassData.Source.Reading

set_option autoImplicit false

def above (r : Reading) (base : List Frame) : Reading := { r with frames := r.frames ++ base }

/-- The innermost of the frames is an opening that nothing has been read into. -/
inductive IsOpening : List Frame → Prop
  | paren (below : List Frame) : IsOpening (.paren :: below)
  | bracket (below : List Frame) : IsOpening (.bracket :: below)

theorem isFloor_of_isOpening {base : List Frame} (h : IsOpening base) : isFloor base = true := by
  cases h <;> rfl

section Steps

variable {base frames : List Frame} {r s : Reading} {e : Expr} {t : Token}

theorem begin?_above : begin? (r.above base) t = (begin? r t).map (·.above base) :=
  begin?_append r.frames base r.focus r.fault t

theorem closeCall_above (function : String) (before : List Argument) :
    closeCall (r.above base) (frames ++ base) function before =
      (closeCall r frames function before).above base := by
  simp only [closeCall]
  split <;> rfl

theorem endEmpty?_above (h : endEmpty? r t = some s) :
    endEmpty? (r.above base) t = some (s.above base) := by
  obtain ⟨frames, focus, fault⟩ := r
  unfold endEmpty? at h
  split at h
  · next hf =>
    subst hf
    cases h
    rfl
  · next hf =>
    subst hf
    cases h
    rfl
  · next hf =>
    subst hf
    simp only [above, List.cons_append, endEmpty?]
    split at h
    · cases h
    · next hne =>
      cases h
      rw [if_neg hne]
  · next hf =>
    subst hf
    cases h
    exact congrArg some (closeCall_above _ _)
  · next hf =>
    subst hf
    cases h
    rfl
  · next hf =>
    subst hf
    cases h
    rfl
  · cases h

theorem comma?_above (hb : IsOpening base) (h : comma? r frames e = some s) :
    comma? (r.above base) (frames ++ base) e = some (s.above base) := by
  unfold comma? at h
  split at h
  · cases h
    rfl
  · cases h
    rfl
  · cases h
    rfl
  · cases h
    rfl
  · cases h
    cases hb <;> rfl
  · cases h
    rfl
  · cases h
    rfl
  · cases h

theorem colon?_above (h : colon? r frames e = some s) :
    colon? (r.above base) (frames ++ base) e = some (s.above base) := by
  unfold colon? at h
  split at h <;> cases h
  · rfl
  · rfl

theorem closeCommas_above (hb : IsOpening base) :
    closeCommas (frames ++ base) e =
      ((closeCommas frames e).1 ++ base, (closeCommas frames e).2) := by
  rcases frames with _ | ⟨frame, frames⟩
  · cases hb <;> rfl
  · cases frame <;> rfl

theorem closeParen?_above (h : closeParen? r frames e = some s) :
    closeParen? (r.above base) (frames ++ base) e = some (s.above base) := by
  unfold closeParen? at h
  split at h <;> cases h
  · rfl
  · rfl
  · rfl
  · exact congrArg some (closeCall_above _ _)
  · exact congrArg some (closeCall_above _ _)

theorem nextItem?_above (hb : IsOpening base) (h : nextItem? r e t = some s) :
    nextItem? (r.above base) e t = some (s.above base) := by
  have hbegin (inner : List Frame) (h : begin? ⟨inner, .nothing, r.fault⟩ t = some s) :
      begin? ⟨inner ++ base, .nothing, r.fault⟩ t = some (s.above base) := by
    rw [begin?_append, h]
    rfl
  simp only [nextItem?, above, closeOperators_append (isFloor_of_isOpening hb)] at h ⊢
  generalize closeOperators 0 r.frames e = closed at h ⊢
  obtain ⟨_ | ⟨frame, inner⟩, item⟩ := closed
  · cases hb <;> exact hbegin [.spaced [item]] h
  · cases frame with
    | spaced before => exact hbegin (.spaced (item :: before) :: inner) h
    | _ => exact hbegin (.spaced [item] :: _ :: inner) h

theorem continue?_above (hb : IsOpening base) (h : continue? r e t = some s) :
    continue? (r.above base) e t = some (s.above base) := by
  have hfloor := isFloor_of_isOpening hb
  have hitem : closeItem (r.above base).frames e =
      ((closeItem r.frames e).1 ++ base, (closeItem r.frames e).2) :=
    closeItem_append hfloor r.frames e
  cases hop : binaryOp? t with
  | some op =>
    simp only [continue?, hop] at h ⊢
    cases h
    rw [above, closeOperators_append hfloor]
    rfl
  | none =>
    cases t with
    | symbol symbol =>
      cases symbol with
      | comma =>
        simp only [continue?, hop, hitem] at h ⊢
        exact comma?_above hb h
      | colon =>
        simp only [continue?, hop, hitem] at h ⊢
        exact colon?_above h
      | closeParen =>
        simp only [continue?, hop, hitem] at h ⊢
        exact closeParen?_above h
      | closeBracket =>
        simp only [continue?, hop, hitem, closeCommas_above hb] at h ⊢
        split at h
        · next he =>
          cases h
          rw [he]
          rfl
        · cases h
      | ellipsis =>
        simp only [continue?, hop, hitem] at h ⊢
        split at h
        · next he =>
          cases h
          rw [he]
          rfl
        · cases h
      | _ =>
        simp only [continue?, hop] at h ⊢
        exact nextItem?_above hb h
    | _ =>
      simp only [continue?, hop] at h ⊢
      exact nextItem?_above hb h

theorem afterVariable?_above (hb : IsOpening base) {name : String}
    (h : afterVariable? r name t = some s) :
    afterVariable? (r.above base) name t = some (s.above base) := by
  obtain ⟨frames, focus, fault⟩ := r
  unfold afterVariable? at h
  split at h
  · next hf =>
    subst hf
    cases h
    rfl
  · next hf =>
    have hc := continue?_above hb h
    unfold afterVariable?
    split
    · next below he =>
      rcases frames with _ | ⟨frame, frames⟩
      · cases hb <;> cases he
      · cases he
        exact absurd rfl (hf _ _ _ rfl)
    · exact hc

theorem afterArgument?_above (h : afterArgument? r t = some s) :
    afterArgument? (r.above base) t = some (s.above base) := by
  obtain ⟨frames, focus, fault⟩ := r
  unfold afterArgument? at h
  split at h
  · next hf =>
    subst hf
    cases h
    rfl
  · next hf =>
    subst hf
    cases h
    exact congrArg some (closeCall_above _ _)
  · cases h

theorem push?_above (hb : IsOpening base) (h : r.push? t = some s) :
    (r.above base).push? t = some (s.above base) := by
  obtain ⟨frames, focus, fault⟩ := r
  cases focus with
  | nothing =>
    have hbegin := @begin?_above base ⟨frames, .nothing, fault⟩ t
    simp only [push?, above] at h hbegin ⊢
    rw [hbegin]
    cases hn : begin? ⟨frames, .nothing, fault⟩ t with
    | some next =>
      rw [hn] at h
      cases h
      rfl
    | none =>
      rw [hn] at h
      exact endEmpty?_above h
  | «variable» name => exact afterVariable?_above hb h
  | operand e => exact continue?_above hb h
  | complete => exact afterArgument?_above h

end Steps

theorem pushAll_above {base : List Frame} (hb : IsOpening base) {ts : List Token}
    {r s : Reading} (h : pushAll push? r ts = some s) :
    pushAll push? (r.above base) ts = some (s.above base) :=
  pushAll_map (·.above base) (fun _ _ _ => push?_above hb) h

/-! ## The closing parenthesis -/

theorem continue?_closeParen_above {r : Reading} {x e : Expr}
    (h : closeCommas (closeItem r.frames x).1 (closeItem r.frames x).2 = ([], e))
    (below : List Frame) :
    continue? (r.above (.paren :: below)) x (.symbol .closeParen) =
      some ⟨below, .operand e, r.fault⟩ := by
  have hitem := @closeItem_append (.paren :: below) rfl r.frames x
  simp only [continue?, binaryOp?, above, hitem]
  generalize closeItem r.frames x = closed at h
  obtain ⟨_ | ⟨frame, frames⟩, item⟩ := closed
  · cases h
    rfl
  · cases frame <;> cases h
    rfl

/-- What the reading on its own ends with is the operand after the closing parenthesis. -/
theorem push?_closeParen_above {r : Reading} {e : Expr} (h : r.finish? = some e)
    (below : List Frame) :
    (r.above (.paren :: below)).push? (.symbol .closeParen) =
      some ⟨below, .operand e, r.fault⟩ := by
  obtain ⟨frames, focus, fault⟩ := r
  cases focus with
  | nothing =>
    simp only [finish?] at h
    split at h
    · cases h
      rfl
    · cases h
  | «variable» name =>
    have hclosed := (@finish?_operand_eq_some_iff frames (.variable name) e fault).mp h
    exact continue?_closeParen_above hclosed below
  | operand x => exact continue?_closeParen_above (finish?_operand_eq_some_iff.mp h) below
  | complete => cases h

end SassData.Source.Reading
