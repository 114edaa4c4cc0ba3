import SassData.Proofs.Source.LineBreaks
import SassData.Proofs.Source.TokenReading

/-!
# Style sheets on lines of their own

What a token does to the reading of a style sheet depends on the place alone, and the place decides
how the text behind the token is cut. A style sheet that ends leads back to the beginning of a
statement, so what stands on the next lines is read as a style sheet of its own, with the statements
of the first below.
-/

namespace SassData.Source

set_option autoImplicit false

/-! ## What one token does -/

namespace SheetReading

/-- How a token may be taken, one case for each kind of it at each place. -/
inductive Takes : SheetReading → Token → SheetReading → Prop
  | assignment (before : List Statement) (fault : Option Failure) (name : String) :
    Takes ⟨before, .between, fault⟩ (.variable name)
      ⟨before, .named (.assignment (Text.canonicalName name)), fault⟩
  | selector (before : List Statement) (fault : Option Failure) (text : String) :
    Takes ⟨before, .between, fault⟩ (.selector text)
      ⟨before, .selected ⟨selectorText text, []⟩, fault⟩
  | debug (before : List Statement) (fault : Option Failure) :
    Takes ⟨before, .between, fault⟩ .debug ⟨before, .inside .debug .start, fault⟩
  | error (before : List Statement) (fault : Option Failure) :
    Takes ⟨before, .between, fault⟩ .error ⟨before, .inside .error .start, fault⟩
  | colon (before : List Statement) (fault : Option Failure) (owner : Owner) :
    Takes ⟨before, .named owner, fault⟩ (.symbol .colon) ⟨before, .inside owner .start, fault⟩
  | inside (before : List Statement) (fault : Option Failure) (owner : Owner) {t : Token}
    {reading next : Reading} (hf : isForeign t = false) (h : reading.push? t = some next) :
    Takes ⟨before, .inside owner reading, fault⟩ t ⟨before, .inside owner next, fault⟩
  | conclude (before : List Statement) (fault : Option Failure) (owner : Owner) {reading : Reading}
    {e : Expr} (h : reading.finish? = some e) :
    Takes ⟨before, .inside owner reading, fault⟩ (.symbol .semicolon)
      (SheetReading.conclude ⟨before, .inside owner reading, fault.or reading.fault⟩ owner e)
  | flag (before : List Statement) (fault : Option Failure) (name : String) (flag : Flag)
    {reading : Reading} {e : Expr} (h : reading.finish? = some e) :
    Takes ⟨before, .inside (.assignment name) reading, fault⟩ (.flag flag)
      ⟨before, .flagged name e [flag], fault.or reading.fault⟩
  | nextFlag (before : List Statement) (fault : Option Failure) (name : String) (e : Expr)
    (flags : List Flag) (flag : Flag) :
    Takes ⟨before, .flagged name e flags, fault⟩ (.flag flag)
      ⟨before, .flagged name e (addFlag flags flag), fault⟩
  | endFlags (before : List Statement) (fault : Option Failure) (name : String) (e : Expr)
    (flags : List Flag) :
    Takes ⟨before, .flagged name e flags, fault⟩ (.symbol .semicolon)
      ⟨.assign name e flags :: before, .between, fault⟩
  | openBlock (before : List Statement) (fault : Option Failure) (rule : OpenRule) :
    Takes ⟨before, .selected rule, fault⟩ (.symbol .openBrace) ⟨before, .block rule, fault⟩
  | property (before : List Statement) (fault : Option Failure) (rule : OpenRule)
    (property : String) :
    Takes ⟨before, .block rule, fault⟩ (.word property)
      ⟨before, .named (.declaration rule property), fault⟩
  | closeBlock (before : List Statement) (fault : Option Failure) (rule : OpenRule) :
    Takes ⟨before, .block rule, fault⟩ (.symbol .closeBrace)
      ⟨.rule rule.selector rule.before.reverse :: before, .between, fault⟩

variable {s s' : SheetReading} {t : Token}

theorem takes_of_inside? {before : List Statement} {owner : Owner} {reading : Reading}
    {fault : Option Failure}
    (h : inside? ⟨before, .inside owner reading, fault⟩ owner reading t = some s') :
    Takes ⟨before, .inside owner reading, fault⟩ t s' := by
  unfold inside? at h
  split at h
  · obtain ⟨e, he, rfl⟩ := Option.map_eq_some_iff.mp h
    exact .conclude before fault _ he
  · obtain ⟨e, he, rfl⟩ := Option.map_eq_some_iff.mp h
    exact .flag before fault _ _ he
  · obtain ⟨next, hn, rfl⟩ := Option.map_eq_some_iff.mp h
    exact .inside before fault _ (Reading.isForeign_of_push? hn) hn

theorem takes_of_push? (h : s.push? t = some s') : Takes s t s' := by
  obtain ⟨before, place, fault⟩ := s
  unfold push? at h
  split at h
  · next hp =>
    cases hp
    cases h
    exact .assignment ..
  · next hp =>
    cases hp
    cases h
    exact .selector ..
  · next hp =>
    cases hp
    cases h
    exact .debug ..
  · next hp =>
    cases hp
    cases h
    exact .error ..
  · next hp =>
    cases hp
    cases h
    exact .colon ..
  · next hp =>
    cases hp
    exact takes_of_inside? h
  · next hp =>
    cases hp
    cases h
    exact .nextFlag ..
  · next hp =>
    cases hp
    cases h
    exact .endFlags ..
  · next hp =>
    cases hp
    cases h
    exact .openBlock ..
  · next hp =>
    cases hp
    cases h
    exact .property ..
  · next hp =>
    cases hp
    cases h
    exact .closeBlock ..
  · cases h

theorem push?_of_takes (h : Takes s t s') : s.push? t = some s' := by
  cases h with
  | inside before fault owner hf h => rw [push?_inside hf, h, Option.map_some]
  | conclude before fault owner h => simp [push?, inside?, h]
  | flag before fault name flag h => simp [push?, inside?, h]
  | _ => rfl

theorem push?_eq_some_iff : s.push? t = some s' ↔ Takes s t s' := ⟨takes_of_push?, push?_of_takes⟩

end SheetReading

/-! ## The place of reading -/

def Owner.inBlock : Owner → Bool
  | .declaration .. => true
  | _ => false

def Place.mode : Place → Mode
  | .between => .statement
  | .named owner => .expression owner.inBlock
  | .inside owner _ => .expression owner.inBlock
  | .flagged .. => .expression false
  | .selected _ => .expression false
  | .block _ => .block

namespace SheetReading

variable {s s' : SheetReading} {t : Token} {ts : List Token}

theorem mode_push? (h : s.push? t = some s') : s'.place.mode = s.place.mode.after t := by
  cases takes_of_push? h with
  | inside before fault owner hf h => exact (after_of_not_foreign hf).symm
  | conclude before fault owner h => cases owner <;> rfl
  | _ => rfl

theorem mode_pushAll (h : pushAll push? s ts = some s') :
    s'.place.mode = s.place.mode.afterAll ts := by
  induction ts generalizing s with
  | nil =>
    cases h
    rfl
  | cons t ts ih =>
    rw [pushAll_cons, Option.bind_eq_some_iff] at h
    obtain ⟨next, ht, h⟩ := h
    rw [ih h, mode_push? ht]
    rfl

theorem ne_between_of_torn (h : Torn ts) (hp : pushAll push? s ts = some s') :
    s'.place ≠ .between := by
  induction h generalizing s with
  | comment rest =>
    rw [pushAll_cons, Option.bind_eq_some_iff] at hp
    obtain ⟨r, hslash, hp⟩ := hp
    rw [pushAll_cons, Option.bind_eq_some_iff] at hp
    obtain ⟨r', hstar, -⟩ := hp
    cases takes_of_push? hslash with
    | @inside before fault owner _ reading _ _ hfirst =>
      cases takes_of_push? hstar with
      | inside _ _ _ _ hsecond =>
        have hnone := Reading.push?_slash_star reading
        rw [hfirst, Option.bind_some, hsecond] at hnone
        cases hnone
  | unknown =>
    rw [pushAll_cons, Option.bind_eq_some_iff] at hp
    obtain ⟨r, hp, -⟩ := hp
    cases takes_of_push? hp with
    | inside _ _ _ hf _ => cases hf
  | selector text =>
    rw [pushAll_cons, Option.bind_eq_some_iff] at hp
    obtain ⟨r, hp, hr⟩ := hp
    cases hr
    cases takes_of_push? hp with
    | selector before fault text => exact nofun
    | inside _ _ _ hf _ => cases hf
  | cons h ih =>
    rw [pushAll_cons, Option.bind_eq_some_iff] at hp
    obtain ⟨r, -, hp⟩ := hp
    exact ih hp

/-! ## Statements below -/

def after (s : SheetReading) (below : List Statement) : SheetReading :=
  { s with before := s.before ++ below }

theorem push?_after (below : List Statement) (h : s.push? t = some s') :
    (s.after below).push? t = some (s'.after below) := by
  rw [push?_eq_some_iff] at h ⊢
  cases h with
  | inside before fault owner hf h => exact .inside _ fault owner hf h
  | conclude before fault owner h =>
    have hc := Takes.conclude (before ++ below) fault owner h
    cases owner <;> exact hc
  | flag before fault name flag h => exact .flag _ fault name flag h
  | _ => constructor

theorem pushAll_after (below : List Statement) (h : pushAll push? s ts = some s') :
    pushAll push? (s.after below) ts = some (s'.after below) :=
  pushAll_map (·.after below) (fun _ _ _ => push?_after below) h

theorem finish?_eq_some_iff {statements : List Statement} :
    s.finish? = some statements ↔ s.place = .between ∧ statements = s.before.reverse := by
  unfold finish?
  split
  · next hp => simp [hp, eq_comm]
  · next hp =>
    constructor
    · rintro ⟨⟩
    · rintro ⟨hbetween, -⟩
      exact absurd hbetween hp

end SheetReading

/-! ## Two style sheets -/

/-- The style sheet of two texts on lines of their own has the statements of the first and then
those of the second. -/
theorem readSheet_append {a b : String} {as bs : List Statement} (ha : readSheet a = .ok as)
    (hb : readSheet b = .ok bs) : readSheet (a ++ "\n" ++ b) = .ok (as ++ bs) := by
  obtain ⟨⟨before, place, fault⟩, hr, hfinish, hfault⟩ := readSheet_eq_ok_iff.mp ha
  obtain ⟨hplace, has⟩ := SheetReading.finish?_eq_some_iff.mp hfinish
  obtain ⟨s, hs, hend, hs'⟩ := readSheet_eq_ok_iff.mp hb
  obtain ⟨hbetween, hbs⟩ := SheetReading.finish?_eq_some_iff.mp hend
  dsimp only at hplace has hfault
  subst hplace hfault
  have hmode := SheetReading.mode_pushAll hr
  have htext : (a ++ "\n" ++ b).toList = a.toList ++ '\n' :: b.toList := by simp
  -- The first text ends between statements, so its tokens are not torn and the second is cut anew.
  have hcut : tokens .statement (a ++ "\n" ++ b).toList =
      tokens .statement a.toList ++ tokens .statement b.toList := by
    rw [htext]
    obtain hcut | htorn := tokens_append_lineBreak .statement a.toList
    · rw [hcut]
      congr 2
      exact hmode.symm
    · exact absurd rfl (SheetReading.ne_between_of_torn htorn hr)
  rw [readSheet_eq_ok_iff]
  refine ⟨s.after before, ?_, ?_, hs'⟩
  · rw [hcut, pushAll_append, hr, Option.bind_some]
    exact SheetReading.pushAll_after before hs
  · rw [SheetReading.finish?_eq_some_iff]
    refine ⟨hbetween, ?_⟩
    rw [has, hbs]
    exact List.reverse_append.symm

end SassData.Source
