import SassData.Proofs.Source.TokenSequences
import SassData.Source.Sheet

/-!
# Reading token by token

A text that is read comes to what its tokens come to; their places only tell where it goes wrong.
The operators around an operand are closed down to the first frame that is none of them, whatever
stands below that frame. Some tokens no expression has, and the beginning of a comment without end
is no expression either.
-/

namespace SassData.Source

set_option autoImplicit false

/-- Takes tokens one by one as long as they can stand where they do. -/
def pushAll {σ : Type} (push? : σ → Token → Option σ) (s : σ) (ts : List Token) : Option σ :=
  ts.foldlM push? s

section Whole

variable {σ α : Type} {push? : σ → Token → Option σ}

theorem pushAll_nil (s : σ) : pushAll push? s [] = some s := rfl

theorem pushAll_cons (s : σ) (t : Token) (ts : List Token) :
    pushAll push? s (t :: ts) = (push? s t).bind fun s => pushAll push? s ts := rfl

theorem pushAll_append (s : σ) (ts us : List Token) :
    pushAll push? s (ts ++ us) = (pushAll push? s ts).bind fun s => pushAll push? s us := by
  simp [pushAll]

theorem pushAll_map {τ : Type} {next? : τ → Token → Option τ} (f : σ → τ)
    (hstep : ∀ s t s', push? s t = some s' → next? (f s) t = some (f s')) {ts : List Token}
    {s s' : σ} (h : pushAll push? s ts = some s') : pushAll next? (f s) ts = some (f s') := by
  induction ts generalizing s with
  | nil =>
    cases h
    rfl
  | cons t ts ih =>
    rw [pushAll_cons, Option.bind_eq_some_iff] at h
    obtain ⟨middle, ht, h⟩ := h
    rw [pushAll_cons, hstep s t middle ht, Option.bind_some, ih h]

theorem pushAll_keeps {Q : σ → Prop} {ts : List Token}
    (hstep : ∀ t ∈ ts, ∀ s s', Q s → push? s t = some s' → Q s') {s s' : σ} (hs : Q s)
    (h : pushAll push? s ts = some s') : Q s' := by
  induction ts generalizing s with
  | nil =>
    cases h
    exact hs
  | cons t ts ih =>
    rw [pushAll_cons, Option.bind_eq_some_iff] at h
    obtain ⟨next, hnext, h⟩ := h
    obtain ⟨hfirst, hrest⟩ := List.forall_mem_cons.mp hstep
    exact ih hrest (hfirst s next hs hnext) h

theorem readAll_eq_ok_iff {s s' : σ} {lexemes : List Lexeme} :
    readAll push? s lexemes = .ok s' ↔ pushAll push? s (lexemes.map Lexeme.token) = some s' := by
  induction lexemes generalizing s with
  | nil => simp [readAll, pushAll]
  | cons lexeme rest ih =>
    rw [readAll, List.map_cons, pushAll_cons]
    cases push? s lexeme.token with
    | none => simp
    | some next => exact ih

theorem readWhole_eq_ok_iff {finish? : σ → Option (α × Option Failure)} {s : σ}
    {lexemes : List Lexeme} {a : α} :
    readWhole push? finish? s lexemes = .ok a ↔
      ∃ s', pushAll push? s (lexemes.map Lexeme.token) = some s' ∧
        finish? s' = some (a, none) := by
  rw [readWhole]
  cases h : readAll push? s lexemes with
  | error p =>
    have hn (s' : σ) : pushAll push? s (lexemes.map Lexeme.token) ≠ some s' := by
      intro hs
      rw [readAll_eq_ok_iff.mpr hs] at h
      cases h
    simp [hn]
  | ok s' =>
    rw [readAll_eq_ok_iff.mp h]
    simp only [Option.some.injEq, exists_eq_left']
    cases finish? s' with
    | none => simp
    | some result =>
      obtain ⟨b, fault⟩ := result
      cases fault <;> simp

theorem isCompileError_of_readWhole {finish? : σ → Option (α × Option Failure)} {s : σ}
    {lexemes : List Lexeme} {failure : Failure}
    (h : readWhole push? finish? s lexemes = .error failure) : failure.isCompileError = true := by
  unfold readWhole at h
  split at h
  · cases h
    rfl
  · split at h <;> cases h <;> rfl

end Whole

theorem readExpr_eq_ok_iff {source : String} {e : Expr} :
    readExpr source = .ok e ↔
      ∃ r, pushAll Reading.push? .start (tokens (.expression false) source.toList) = some r ∧
        r.finish? = some e ∧ r.fault = none := by
  have ht : (scan (.expression false) source).map Lexeme.token =
      tokens (.expression false) source.toList := rfl
  simp only [readExpr, readWhole_eq_ok_iff, ht, Option.map_eq_some_iff, Prod.mk.injEq]
  constructor
  · rintro ⟨r, hp, e', hf, rfl, hn⟩
    exact ⟨r, hp, hf, hn⟩
  · rintro ⟨r, hp, hf, hn⟩
    exact ⟨r, hp, e, hf, rfl, hn⟩

theorem readSheet_eq_ok_iff {source : String} {statements : List Statement} :
    readSheet source = .ok statements ↔
      ∃ s, pushAll SheetReading.push? .start (tokens .statement source.toList) = some s ∧
        s.finish? = some statements ∧ s.fault = none := by
  have ht : (scan .statement source).map Lexeme.token = tokens .statement source.toList := rfl
  simp only [readSheet, readWhole_eq_ok_iff, ht, Option.map_eq_some_iff, Prod.mk.injEq]
  constructor
  · rintro ⟨s, hp, e', hf, rfl, hn⟩
    exact ⟨s, hp, hf, hn⟩
  · rintro ⟨s, hp, hf, hn⟩
    exact ⟨s, hp, statements, hf, rfl, hn⟩

namespace Reading

/-! ## Tokens that no expression has -/

theorem begin?_foreign {r : Reading} {t : Token} (h : isForeign t = true) : begin? r t = none := by
  unfold isForeign at h
  split at h <;> first | rfl | cases h

theorem endEmpty?_foreign {r : Reading} {t : Token} (h : isForeign t = true) :
    endEmpty? r t = none := by
  unfold isForeign at h
  split at h <;> first | rfl | cases h

theorem continue?_foreign {r : Reading} {t : Token} (h : isForeign t = true) (e : Expr) :
    continue? r e t = none := by
  have hb (r : Reading) : begin? r t = none := begin?_foreign h
  unfold isForeign at h
  split at h <;> first | (cases h; done) | simp [continue?, binaryOp?, nextItem?, hb]

theorem push?_foreign {r : Reading} {t : Token} (h : isForeign t = true) : r.push? t = none := by
  obtain ⟨frames, _ | name | e | _, fault⟩ := r
  · simp [push?, begin?_foreign h, endEmpty?_foreign h]
  · have hc := @continue?_foreign ⟨frames, .variable name, fault⟩ t h (.variable name)
    refine Eq.trans ?_ hc
    unfold isForeign at h
    split at h <;> first | rfl | cases h
  · exact continue?_foreign h e
  · unfold isForeign at h
    split at h <;> first | rfl | cases h

theorem isForeign_of_push? {r s : Reading} {t : Token} (h : r.push? t = some s) :
    isForeign t = false := by
  cases hf : isForeign t with
  | false => rfl
  | true =>
    rw [push?_foreign hf] at h
    cases h

/-- After a slash comes an operand, and no operand begins with a star. -/
theorem push?_slash_star (r : Reading) :
    ((r.push? (.symbol .slash)).bind fun r => r.push? (.symbol .star)) = none := by
  obtain ⟨frames, _ | name | e | _, fault⟩ := r <;> rfl

theorem pushAll_broken {ts : List Token} (h : Broken ts) (r : Reading) :
    pushAll push? r ts = none := by
  induction h generalizing r with
  | foreign hf => simp [pushAll_cons, push?_foreign hf]
  | comment =>
    simp only [pushAll_cons]
    rw [← Option.bind_assoc, push?_slash_star]
    rfl
  | cons _ ih =>
    rw [pushAll_cons]
    cases push? r _ with
    | none => rfl
    | some next => exact ih next

/-! ## Closing frames above a floor -/

/-- Frames that closing an item does not touch. -/
def isFloor : List Frame → Bool
  | .unary _ :: _ | .binary .. :: _ | .spaced _ :: _ => false
  | _ => true

theorem closeOperators_floor {level : Nat} {frames : List Frame} (h : isFloor frames = true)
    (e : Expr) : closeOperators level frames e = (frames, e) := by
  unfold isFloor at h
  split at h
  · cases h
  · cases h
  · cases h
  · unfold closeOperators
    split <;> simp_all

theorem closeOperators_append {base : List Frame} (h : isFloor base = true) (level : Nat)
    (inner : List Frame) (e : Expr) :
    closeOperators level (inner ++ base) e =
      ((closeOperators level inner e).1 ++ base, (closeOperators level inner e).2) := by
  fun_induction closeOperators level inner e with
  | case1 op frames e ih => simpa [closeOperators] using ih
  | case2 left op frames e hl ih => simpa [closeOperators, hl] using ih
  | case3 left op frames e hl => simp [closeOperators, hl]
  | case4 frames e hu hb =>
    cases frames with
    | nil => simpa using closeOperators_floor h e
    | cons frame frames =>
      rw [List.cons_append]
      unfold closeOperators
      split
      · next he =>
        cases he
        exact absurd rfl (hu _ _)
      · next he =>
        cases he
        exact absurd rfl (hb _ _ _)
      · rfl

theorem closeItem_append {base : List Frame} (h : isFloor base = true) (inner : List Frame)
    (e : Expr) :
    closeItem (inner ++ base) e = ((closeItem inner e).1 ++ base, (closeItem inner e).2) := by
  simp only [closeItem, closeOperators_append h]
  cases hc : closeOperators 0 inner e with
  | mk frames e =>
    cases frames with
    | nil =>
      cases base with
      | nil => rfl
      | cons frame base => cases frame <;> first | rfl | cases h
    | cons frame frames => cases frame <;> rfl

theorem closeItem_floor {frames : List Frame} (h : isFloor frames = true) (e : Expr) :
    closeItem frames e = (frames, e) :=
  closeItem_append h [] e

theorem finish?_of_closeItem {inner frames : List Frame} {operand item e : Expr}
    {fault : Option Failure} (h : closeItem inner operand = (frames, item))
    (hc : closeCommas frames item = ([], e)) :
    finish? ⟨inner, .operand operand, fault⟩ = some e := by
  simp [finish?, h, hc]

theorem finish?_operand_eq_some_iff {frames : List Frame} {operand e : Expr}
    {fault : Option Failure} :
    finish? ⟨frames, .operand operand, fault⟩ = some e ↔
      closeCommas (closeItem frames operand).1 (closeItem frames operand).2 = ([], e) := by
  simp only [finish?]
  split
  · next hc =>
    rw [hc]
    simp
  · next hc =>
    refine iff_of_false nofun fun h => ?_
    exact hc e h

/-! ## Closing parentheses -/

theorem focus_closeCall (r : Reading) (frames : List Frame) (function : String)
    (before : List Argument) :
    ∃ e, (r.closeCall frames function before).focus = .operand e := by
  simp only [closeCall]
  split
  · exact ⟨_, rfl⟩
  · exact ⟨_, rfl⟩

theorem focus_of_closeParen? {r s : Reading} {frames : List Frame} {e : Expr}
    (h : r.closeParen? frames e = some s) : ∃ e, s.focus = .operand e := by
  unfold closeParen? at h
  split at h <;> cases h
  · exact ⟨_, rfl⟩
  · exact ⟨_, rfl⟩
  · exact ⟨_, rfl⟩
  · exact focus_closeCall _ _ _ _
  · exact focus_closeCall _ _ _ _

theorem focus_of_push?_closeParen {r s : Reading} (h : r.push? (.symbol .closeParen) = some s) :
    ∃ e, s.focus = .operand e := by
  have hcontinue {e : Expr} (h : r.continue? e (.symbol .closeParen) = some s) :
      ∃ e, s.focus = .operand e := by
    simp only [continue?, binaryOp?] at h
    exact focus_of_closeParen? h
  obtain ⟨frames, _ | name | e | _, fault⟩ := r
  · simp only [push?, begin?, Option.none_or] at h
    unfold endEmpty? at h
    split at h
    · cases h
      exact ⟨_, rfl⟩
    · cases h
      exact ⟨_, rfl⟩
    · split at h <;> cases h
      exact ⟨_, rfl⟩
    · cases h
      exact focus_closeCall _ _ _ _
    · cases h
      exact ⟨_, rfl⟩
    · cases h
      exact ⟨_, rfl⟩
    · cases h
  · exact hcontinue h
  · exact hcontinue h
  · simp only [push?, afterArgument?] at h
    split at h
    · next he => cases he
    · cases h
      exact focus_closeCall _ _ _ _
    · cases h

end Reading

namespace SheetReading

/-! ## Expressions in statements -/

variable {before : List Statement} {owner : Owner} {fault : Option Failure}

/-- Inside an expression its own reading goes on, as long as no token ends it. -/
theorem push?_inside {t : Token} (h : isForeign t = false) (r : Reading) :
    push? ⟨before, .inside owner r, fault⟩ t =
      (r.push? t).map fun r => ⟨before, .inside owner r, fault⟩ := by
  have hs : t ≠ .symbol .semicolon := by
    rintro rfl
    cases h
  have hf (flag : Flag) : t ≠ .flag flag := by
    rintro rfl
    cases h
  simp only [push?, inside?]
  split
  · exact absurd rfl hs
  · next flag _ => exact absurd rfl (hf flag)
  · rfl

theorem pushAll_inside {ts : List Token} {r r' : Reading}
    (h : pushAll Reading.push? r ts = some r') :
    pushAll push? ⟨before, .inside owner r, fault⟩ ts =
      some ⟨before, .inside owner r', fault⟩ := by
  refine pushAll_map (fun r => SheetReading.mk before (.inside owner r) fault) ?_ h
  intro r t next ht
  rw [push?_inside (Reading.isForeign_of_push? ht), ht, Option.map_some]

theorem push?_semicolon {name : String} {r : Reading} {e : Expr} (h : r.finish? = some e) :
    push? ⟨before, .inside (.assignment name) r, fault⟩ (.symbol .semicolon) =
      some ⟨.assign name e [] :: before, .between, fault.or r.fault⟩ := by
  simp [push?, inside?, h, conclude]

end SheetReading

end SassData.Source
