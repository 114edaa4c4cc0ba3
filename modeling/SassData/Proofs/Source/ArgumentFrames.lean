import SassData.Proofs.Source.TokenReading

/-!
# Expressions read as arguments

What can be read on its own can be read between the parentheses of a call. The frames above are the
same; below them the call takes the place of nothing at all, and what a comma list has gathered at
the top are the arguments gathered so far. When the parenthesis of the call closes, the expression
is the only argument, or there are several.
-/

namespace SassData.Source

set_option autoImplicit false

open Reading

/-- What lies below an expression on its own and what lies below it in a call. -/
inductive Below (function : String) : List Frame → List Frame → Prop
  | first : Below function [] [.argument function []]
  | later (before : List Expr) (h : before ≠ []) :
    Below function [.commas before] [.argument function (before.map .positional)]

inductive Framed (function : String) : Reading → Reading → Prop
  | intro (inner : List Frame) {below below' : List Frame} (h : Below function below below')
    (focus : Focus) (fault : Option Failure) :
    Framed function ⟨inner ++ below, focus, fault⟩ ⟨inner ++ below', focus, fault⟩

/-- Where the reading on its own goes on, the one in a call goes on as well. -/
def Follows (function : String) (a b : Option Reading) : Prop :=
  ∀ r, a = some r → ∃ s, b = some s ∧ Framed function r s

section Steps

variable {function : String} {below below' : List Frame}

theorem Follows.none (b : Option Reading) : Follows function none b := by
  intro r h
  cases h

theorem Follows.some (inner : List Frame) (h : Below function below below') (focus : Focus)
    (fault : Option Failure) :
    Follows function (some ⟨inner ++ below, focus, fault⟩)
      (some ⟨inner ++ below', focus, fault⟩) := by
  intro r hr
  cases hr
  exact ⟨_, rfl, .intro inner h focus fault⟩

theorem Follows.or {a b c d : Option Reading} (hac : Follows function a c)
    (hbd : Follows function b d) (hc : a = Option.none → c = Option.none) :
    Follows function (a.or b) (c.or d) := by
  intro r hr
  cases ha : a with
  | some x =>
    rw [ha, Option.some_or] at hr
    cases hr
    obtain ⟨s, hs, hf⟩ := hac _ ha
    exact ⟨s, by rw [hs, Option.some_or], hf⟩
  | none =>
    rw [ha, Option.none_or] at hr
    rw [hc ha, Option.none_or]
    exact hbd _ hr

theorem isFloor_of_below (h : Below function below below') :
    isFloor below = true ∧ isFloor below' = true := by
  cases h <;> exact ⟨rfl, rfl⟩

theorem begin?_append (frames base : List Frame) (focus : Focus) (fault : Option Failure)
    (t : Token) :
    begin? ⟨frames ++ base, focus, fault⟩ t =
      (begin? ⟨frames, focus, fault⟩ t).map fun r => { r with frames := r.frames ++ base } := by
  cases t with
  | hash text =>
    simp only [begin?]
    split <;> rfl
  | word word =>
    simp only [begin?]
    split <;> rfl
  | symbol symbol => cases symbol <;> rfl
  | number _ | string _ | call _ | «variable» _ | selector _ | flag _ | debug | error | unknown =>
    rfl

theorem begin?_follows (inner : List Frame) (h : Below function below below') (focus : Focus)
    (fault : Option Failure) (t : Token) :
    Follows function (begin? ⟨inner ++ below, focus, fault⟩ t)
      (begin? ⟨inner ++ below', focus, fault⟩ t) := by
  rw [begin?_append, begin?_append]
  cases begin? ⟨inner, focus, fault⟩ t with
  | none => exact .none _
  | some r => exact .some r.frames h r.focus r.fault

theorem closeCall_follows (inner : List Frame) (h : Below function below below')
    (frames frames' : List Frame) (focus : Focus) (fault : Option Failure) (name : String)
    (before : List Argument) :
    Follows function (some (closeCall ⟨frames, focus, fault⟩ (inner ++ below) name before))
      (some (closeCall ⟨frames', focus, fault⟩ (inner ++ below') name before)) := by
  simp only [closeCall]
  split
  · exact .some inner h _ _
  · exact .some inner h _ _

/-- Below the frames of the expression there is nothing that a closing token could close. -/
theorem endEmpty?_follows (inner : List Frame) (h : Below function below below')
    (focus : Focus) (fault : Option Failure) (t : Token) :
    Follows function (endEmpty? ⟨inner ++ below, focus, fault⟩ t)
      (endEmpty? ⟨inner ++ below', focus, fault⟩ t) := by
  cases t with
  | symbol symbol =>
    cases symbol with
    | closeParen =>
      match inner with
      | [] => cases h <;> exact .none _
      | .paren :: inner => exact .some inner h _ _
      | .mapKey before :: inner =>
        cases before with
        | nil => exact .none _
        | cons => exact .some inner h _ _
      | .argument name before :: inner => exact closeCall_follows inner h _ _ _ _ _ _
      | [.commas before] => cases h <;> exact .none _
      | .commas before :: frame :: inner =>
        cases frame with
        | paren => exact .some inner h _ _
        | _ => exact .none _
      | .unary _ :: _ | .binary .. :: _ | .spaced _ :: _ | .bracket :: _ | .mapValue .. :: _
      | .keyword .. :: _ => exact .none _
    | closeBracket =>
      match inner with
      | [] => cases h <;> exact .none _
      | .bracket :: inner => exact .some inner h _ _
      | [.commas before] => cases h <;> exact .none _
      | .commas before :: frame :: inner =>
        cases frame with
        | bracket => exact .some inner h _ _
        | _ => exact .none _
      | .unary _ :: _ | .binary .. :: _ | .spaced _ :: _ | .paren :: _ | .mapKey _ :: _
      | .mapValue .. :: _ | .argument .. :: _ | .keyword .. :: _ => exact .none _
    | _ => exact .none _
  | _ => exact .none _

theorem comma?_follows (inner : List Frame) (h : Below function below below')
    (frames frames' : List Frame) (focus : Focus) (fault : Option Failure) (e : Expr) :
    Follows function (comma? ⟨frames, focus, fault⟩ (inner ++ below) e)
      (comma? ⟨frames', focus, fault⟩ (inner ++ below') e) := by
  match inner with
  | [] =>
    cases h with
    | first => exact .some [] (.later [e] (List.cons_ne_nil e [])) _ _
    | later before => exact .some [] (.later (e :: before) (List.cons_ne_nil e before)) _ _
  | .commas before :: inner => exact .some (.commas (e :: before) :: inner) h _ _
  | .mapValue before key :: inner => exact .some (.mapKey ((key, e) :: before) :: inner) h _ _
  | .argument name before :: inner =>
    exact .some (.argument name (.positional e :: before) :: inner) h _ _
  | .keyword name before key :: inner =>
    exact .some (.argument name (.keyword key e :: before) :: inner) h _ _
  | .paren :: inner => exact .some (.commas [e] :: .paren :: inner) h _ _
  | .bracket :: inner => exact .some (.commas [e] :: .bracket :: inner) h _ _
  | .unary _ :: _ | .binary .. :: _ | .spaced _ :: _ | .mapKey _ :: _ => exact .none _

theorem colon?_follows (inner : List Frame) (h : Below function below below')
    (frames frames' : List Frame) (focus : Focus) (fault : Option Failure) (e : Expr) :
    Follows function (colon? ⟨frames, focus, fault⟩ (inner ++ below) e)
      (colon? ⟨frames', focus, fault⟩ (inner ++ below') e) := by
  match inner with
  | [] => cases h <;> exact .none _
  | .paren :: inner => exact .some (.mapValue [] e :: inner) h _ _
  | .mapKey before :: inner => exact .some (.mapValue before e :: inner) h _ _
  | .unary _ :: _ | .binary .. :: _ | .spaced _ :: _ | .commas _ :: _ | .bracket :: _
  | .mapValue .. :: _ | .argument .. :: _ | .keyword .. :: _ => exact .none _

theorem closeParen?_follows (inner : List Frame) (h : Below function below below')
    (frames frames' : List Frame) (focus : Focus) (fault : Option Failure) (e : Expr) :
    Follows function (closeParen? ⟨frames, focus, fault⟩ (inner ++ below) e)
      (closeParen? ⟨frames', focus, fault⟩ (inner ++ below') e) := by
  match inner with
  | [] => cases h <;> exact .none _
  | .paren :: inner => exact .some inner h _ _
  | .mapValue before key :: inner => exact .some inner h _ _
  | .argument name before :: inner => exact closeCall_follows inner h _ _ _ _ _ _
  | .keyword name before key :: inner => exact closeCall_follows inner h _ _ _ _ _ _
  | [.commas before] => cases h <;> exact .none _
  | .commas before :: frame :: inner =>
    cases frame with
    | paren => exact .some inner h _ _
    | _ => exact .none _
  | .unary _ :: _ | .binary .. :: _ | .spaced _ :: _ | .bracket :: _ | .mapKey _ :: _ =>
    exact .none _

theorem closeBracket_follows (inner : List Frame) (h : Below function below below')
    (focus : Focus) (fault : Option Failure) (e : Expr) :
    Follows function (continue? ⟨inner ++ below, focus, fault⟩ e (.symbol .closeBracket))
      (continue? ⟨inner ++ below', focus, fault⟩ e (.symbol .closeBracket)) := by
  obtain ⟨hf, hf'⟩ := isFloor_of_below h
  simp only [continue?, binaryOp?, closeItem_append hf, closeItem_append hf']
  rcases (closeItem inner e).1 with _ | ⟨frame, inner⟩
  · cases h <;> exact .none _
  · cases frame with
    | bracket => exact .some inner h _ _
    | commas before =>
      rcases inner with _ | ⟨frame, inner⟩
      · cases h <;> exact .none _
      · cases frame with
        | bracket => exact .some inner h _ _
        | _ => exact .none _
    | _ => exact .none _

theorem ellipsis_follows (inner : List Frame) (h : Below function below below')
    (focus : Focus) (fault : Option Failure) (e : Expr) :
    Follows function (continue? ⟨inner ++ below, focus, fault⟩ e (.symbol .ellipsis))
      (continue? ⟨inner ++ below', focus, fault⟩ e (.symbol .ellipsis)) := by
  obtain ⟨hf, hf'⟩ := isFloor_of_below h
  simp only [continue?, binaryOp?, closeItem_append hf, closeItem_append hf']
  rcases (closeItem inner e).1 with _ | ⟨frame, inner⟩
  · cases h <;> exact .none _
  · cases frame with
    | argument name before => exact .some (.argument name (.spread _ :: before) :: inner) h _ _
    | _ => exact .none _

theorem nextItem?_follows (inner : List Frame) (h : Below function below below')
    (focus : Focus) (fault : Option Failure) (e : Expr) (t : Token) :
    Follows function (nextItem? ⟨inner ++ below, focus, fault⟩ e t)
      (nextItem? ⟨inner ++ below', focus, fault⟩ e t) := by
  obtain ⟨hf, hf'⟩ := isFloor_of_below h
  simp only [nextItem?, closeOperators_append hf, closeOperators_append hf']
  rcases (closeOperators 0 inner e).1 with _ | ⟨frame, inner⟩
  · cases h <;> exact begin?_follows [.spaced _] (by constructor <;> assumption) _ _ t
  · cases frame with
    | spaced before => exact begin?_follows (.spaced _ :: inner) h _ _ t
    | _ => exact begin?_follows (.spaced _ :: _ :: inner) h _ _ t

theorem continue?_follows (inner : List Frame) (h : Below function below below')
    (focus : Focus) (fault : Option Failure) (e : Expr) (t : Token) :
    Follows function (continue? ⟨inner ++ below, focus, fault⟩ e t)
      (continue? ⟨inner ++ below', focus, fault⟩ e t) := by
  obtain ⟨hf, hf'⟩ := isFloor_of_below h
  cases hop : binaryOp? t with
  | some op =>
    simp only [continue?, hop, closeOperators_append hf, closeOperators_append hf']
    exact .some (.binary _ op :: _) h _ _
  | none =>
    cases t with
    | symbol symbol =>
      cases symbol with
      | closeBracket => exact closeBracket_follows inner h focus fault e
      | ellipsis => exact ellipsis_follows inner h focus fault e
      | comma =>
        simp only [continue?, hop, closeItem_append hf, closeItem_append hf']
        exact comma?_follows _ h _ _ _ _ _
      | colon =>
        simp only [continue?, hop, closeItem_append hf, closeItem_append hf']
        exact colon?_follows _ h _ _ _ _ _
      | closeParen =>
        simp only [continue?, hop, closeItem_append hf, closeItem_append hf']
        exact closeParen?_follows _ h _ _ _ _ _
      | _ =>
        simp only [continue?, hop]
        exact nextItem?_follows inner h focus fault e _
    | _ =>
      simp only [continue?, hop]
      exact nextItem?_follows inner h focus fault e _

/-- After a variable a colon at the top is read in a call only. -/
theorem afterVariable?_follows (inner : List Frame) (h : Below function below below')
    (focus : Focus) (fault : Option Failure) (name : String) (t : Token) :
    Follows function (afterVariable? ⟨inner ++ below, focus, fault⟩ name t)
      (afterVariable? ⟨inner ++ below', focus, fault⟩ name t) := by
  have hc := continue?_follows inner h focus fault (.variable name) t
  by_cases ht : t = .symbol .colon
  · subst ht
    match inner with
    | [] => cases h <;> exact .none _
    | .argument name before :: inner => exact .some (.keyword name before _ :: inner) h _ _
    | .unary _ :: _ | .binary .. :: _ | .spaced _ :: _ | .paren :: _ | .bracket :: _
    | .commas _ :: _ | .mapKey _ :: _ | .mapValue .. :: _ | .keyword .. :: _ => exact hc
  · have hv (frames : List Frame) : afterVariable? ⟨frames, focus, fault⟩ name t =
        continue? ⟨frames, focus, fault⟩ (.variable name) t := by
      unfold afterVariable?
      split
      · exact absurd rfl ht
      · rfl
    rw [hv, hv]
    exact hc

theorem afterArgument?_follows (inner : List Frame) (h : Below function below below')
    (focus : Focus) (fault : Option Failure) (t : Token) :
    Follows function (afterArgument? ⟨inner ++ below, focus, fault⟩ t)
      (afterArgument? ⟨inner ++ below', focus, fault⟩ t) := by
  cases t with
  | symbol symbol =>
    cases symbol with
    | comma =>
      match inner with
      | [] => cases h <;> exact .none _
      | .argument name before :: inner => exact .some (.argument name before :: inner) h _ _
      | .unary _ :: _ | .binary .. :: _ | .spaced _ :: _ | .paren :: _ | .bracket :: _
      | .commas _ :: _ | .mapKey _ :: _ | .mapValue .. :: _ | .keyword .. :: _ => exact .none _
    | closeParen =>
      match inner with
      | [] => cases h <;> exact .none _
      | .argument name before :: inner => exact closeCall_follows inner h _ _ _ _ _ _
      | .unary _ :: _ | .binary .. :: _ | .spaced _ :: _ | .paren :: _ | .bracket :: _
      | .commas _ :: _ | .mapKey _ :: _ | .mapValue .. :: _ | .keyword .. :: _ => exact .none _
    | _ => exact .none _
  | _ => exact .none _

end Steps

theorem push?_framed {function : String} {r s : Reading} (h : Framed function r s) (t : Token) :
    Follows function (r.push? t) (s.push? t) := by
  obtain ⟨inner, hb, focus, fault⟩ := h
  rcases focus with _ | name | e | _
  · refine Follows.or (begin?_follows inner hb _ _ t) (endEmpty?_follows inner hb _ _ t) ?_
    intro hn
    rw [begin?_append, Option.map_eq_none_iff] at hn ⊢
    exact hn
  · exact afterVariable?_follows inner hb _ _ name t
  · exact continue?_follows inner hb _ _ e t
  · exact afterArgument?_follows inner hb _ _ t

theorem pushAll_framed {function : String} {r s r' : Reading} {ts : List Token}
    (h : Framed function r s) (hp : pushAll Reading.push? r ts = some r') :
    ∃ s', pushAll Reading.push? s ts = some s' ∧ Framed function r' s' := by
  induction ts generalizing r s with
  | nil =>
    cases hp
    exact ⟨s, rfl, h⟩
  | cons t ts ih =>
    rw [pushAll_cons, Option.bind_eq_some_iff] at hp
    obtain ⟨next, ht, hp⟩ := hp
    obtain ⟨next', ht', hf⟩ := push?_framed h t next ht
    obtain ⟨s', hs, hf'⟩ := ih hf hp
    exact ⟨s', by rw [pushAll_cons, ht', Option.bind_some, hs], hf'⟩

/-! ## The end of the call -/

theorem isMisplaced_positional (es : List Expr) : isMisplaced (es.map .positional) = false := by
  induction es with
  | nil => rfl
  | cons e es ih => exact ih

theorem callOf_positional (function : String) (es : List Expr) :
    callOf function (es.map .positional) = .call function es [] none := by
  unfold callOf
  congr 1
  · rw [List.filterMap_map]
    exact List.filterMap_some
  · rw [List.filterMap_map]
    exact List.filterMap_eq_nil_iff.mpr fun _ _ => rfl
  · rw [List.findSome?_eq_none_iff]
    intro a ha
    rw [List.mem_reverse, List.mem_map] at ha
    obtain ⟨e, -, rfl⟩ := ha
    rfl

theorem closeCall_positional (r : Reading) (frames : List Frame) (function : String)
    (before : List Expr) :
    r.closeCall frames function (before.map .positional) =
      ⟨frames, .operand (.call function before.reverse [] none), r.fault⟩ := by
  simp only [closeCall, ← List.map_reverse, isMisplaced_positional, callOf_positional]
  rfl

/-- An expression that is complete is the only argument, or there are several arguments. -/
theorem closeParen_framed {function : String} {r s s' : Reading} {e operand : Expr}
    (h : Framed function r s) (ho : r.focus = .operand operand) (hf : r.finish? = some e)
    (hp : s.push? (.symbol .closeParen) = some s') :
    s' = ⟨[], .operand (.call function [e] [] none), r.fault⟩ ∨
      ∃ a b es, s' = ⟨[], .operand (.call function (a :: b :: es) [] none), r.fault⟩ := by
  obtain ⟨inner, hb, focus, fault⟩ := h
  obtain rfl : focus = .operand operand := ho
  obtain ⟨hfloor, hfloor'⟩ := isFloor_of_below hb
  cases hc : closeItem inner operand with
  | mk closed item =>
  have hclosed := closeItem_append hfloor inner operand
  have hclosed' := closeItem_append hfloor' inner operand
  rw [hc] at hclosed hclosed'
  simp only [finish?, hclosed] at hf
  simp only [push?, continue?, binaryOp?, hclosed'] at hp
  cases closed with
  | nil =>
    cases hb with
    | first =>
      cases hf
      cases hp
      exact Or.inl (closeCall_positional _ [] function [e])
    | later before hne =>
      cases hp
      obtain ⟨b, es, hes⟩ := List.exists_cons_of_ne_nil (List.reverse_ne_nil_iff.mpr hne)
      have hcall := closeCall_positional ⟨inner ++ [.argument function (before.map .positional)],
        .operand operand, fault⟩ [] function (item :: before)
      rw [List.reverse_cons, hes] at hcall
      cases es with
      | nil => exact Or.inr ⟨b, item, [], hcall⟩
      | cons c es => exact Or.inr ⟨b, c, es ++ [item], hcall⟩
  | cons frame closed =>
    cases frame with
    | commas before =>
      cases closed with
      | nil =>
        cases hb with
        | first => cases hp
        | later => cases hf
      | cons => cases hf
    | _ => cases hf

end SassData.Source
