import SassData.Proofs.Evaluation.ArgumentDelivery

/-!
# Arguments that fit

Which arguments can be bound is told from the parameters alone, and so is what comes of it. The
parameters in front are filled by place; each of the others is filled by the keyword of its name if
it is the first of them with that name, and has its default otherwise. Nothing may be left over,
unless a last parameter takes the rest.
-/

namespace SassData

set_option autoImplicit false

namespace Signature

def fixed (s : Signature) : List Parameter := s.parameters.filter (!·.isRest)

def RestIsLast (s : Signature) : Prop := ∀ p ∈ s.parameters.dropLast, p.isRest = false

theorem restIsLast_of_read {text : String} {s : Signature} (h : read text = .ok s) :
    s.RestIsLast := by
  rw [read] at h
  split at h
  · cases h
  · next name inside _ =>
    obtain ⟨parameters, -, h⟩ := Outcome.bind_eq_ok_iff.mp h
    cases hany : parameters.dropLast.any Parameter.isRest with
    | true =>
      rw [hany] at h
      cases h
    | false =>
      rw [hany] at h
      cases h
      simpa [RestIsLast] using hany

/-! ## Fitting -/

/-- Arguments fit parameters that take one each, and another one that takes the rest if there is
one. A keyword is for the first parameter with its name behind those that are filled by place. -/
structure Fits (fixed : List Parameter) (hasRest : Bool) (positional : List Value)
    (keywords : Named Value) : Prop where
  room : positional.length ≤ fixed.length ∨ hasRest = true
  apart : ∀ p ∈ fixed.take positional.length, p.name ∉ keywords.map Prod.fst
  known : ∀ name ∈ keywords.map Prod.fst, ∃ p ∈ fixed.drop positional.length, p.name = name
  filled : ∀ before p after, fixed.drop positional.length = before ++ p :: after →
    p.default.isSome = true ∨ p.name ∈ keywords.map Prod.fst ∧ ∀ q ∈ before, q.name ≠ p.name

/-- What the slot of a parameter behind others gets: the argument at its place, or else the one with
its name, unless a parameter behind the last place has the name too. -/
def slotOf (positional : List Value) (keywords : Named Value) (before : List Parameter)
    (p : Parameter) : Option Value :=
  if before.length < positional.length then positional[before.length]?
  else if ∃ q ∈ before.drop positional.length, q.name = p.name then none
  else keywords.get? p.name

/-- The slots of parameters as they are filled one after another; a keyword that is taken is
gone. -/
def filledSlots : List Parameter → List Value → Named Value → List (Option Value)
  | [], _, _ => []
  | _ :: fixed, v :: positional, keywords => some v :: filledSlots fixed positional keywords
  | p :: fixed, [], keywords =>
    keywords.get? p.name :: filledSlots fixed [] (keywords.remove p.name)

section

variable {fixed parameters : List Parameter} {hasRest : Bool} {positional : List Value}
  {keywords : Named Value} {p : Parameter} {v : Value}

theorem fits_nil :
    Fits [] hasRest positional keywords ↔ (positional = [] ∨ hasRest = true) ∧ keywords = [] := by
  constructor
  · intro h
    refine ⟨by simpa using h.room, ?_⟩
    cases keywords with
    | nil => rfl
    | cons keyword rest =>
      obtain ⟨p, hp, -⟩ := h.known keyword.1 List.mem_cons_self
      rw [List.drop_nil] at hp
      cases hp
  · rintro ⟨hroom, rfl⟩
    exact ⟨by simpa using hroom, by simp, by simp, by simp⟩

theorem fits_placed :
    Fits (p :: fixed) hasRest (v :: positional) keywords ↔
      p.name ∉ keywords.map Prod.fst ∧ Fits fixed hasRest positional keywords := by
  have hroom : (v :: positional).length ≤ (p :: fixed).length ↔
      positional.length ≤ fixed.length := Nat.add_le_add_iff_right
  constructor
  · intro h
    obtain ⟨hp, hapart⟩ := List.forall_mem_cons.mp h.apart
    exact ⟨hp, h.room.imp_left hroom.mp, hapart, h.known, h.filled⟩
  · rintro ⟨hp, h⟩
    exact ⟨h.room.imp_left hroom.mpr, List.forall_mem_cons.mpr ⟨hp, h.apart⟩, h.known, h.filled⟩

theorem fits_named :
    Fits (p :: fixed) hasRest [] keywords ↔
      (p.default.isSome = true ∨ p.name ∈ keywords.map Prod.fst) ∧
        Fits fixed hasRest [] (keywords.remove p.name) := by
  constructor
  · intro h
    refine ⟨(h.filled [] p fixed rfl).imp_right And.left, Or.inl (Nat.zero_le _), nofun, ?_, ?_⟩
    · intro name hname
      obtain ⟨hne, hmem⟩ := Named.mem_remove_iff.mp hname
      obtain ⟨q, hq, rfl⟩ := h.known name hmem
      rcases List.mem_cons.mp hq with rfl | hq
      · exact absurd rfl hne
      · exact ⟨q, hq, rfl⟩
    · intro before q after hsplit
      refine (h.filled (p :: before) q after (congrArg (p :: ·) hsplit)).imp_right ?_
      rintro ⟨hmem, hbefore⟩
      obtain ⟨hp, hbefore⟩ := List.forall_mem_cons.mp hbefore
      exact ⟨Named.mem_remove_iff.mpr ⟨Ne.symm hp, hmem⟩, hbefore⟩
  · rintro ⟨hp, h⟩
    refine ⟨Or.inl (Nat.zero_le _), nofun, ?_, ?_⟩
    · intro name hname
      by_cases hn : name = p.name
      · exact ⟨p, List.mem_cons_self, hn.symm⟩
      · obtain ⟨q, hq, hqn⟩ := h.known name (Named.mem_remove_iff.mpr ⟨hn, hname⟩)
        exact ⟨q, List.mem_cons_of_mem p hq, hqn⟩
    · intro before q after hsplit
      cases before with
      | nil =>
        cases hsplit
        exact hp.imp_right fun hmem => ⟨hmem, nofun⟩
      | cons r before =>
        obtain ⟨rfl, hrest⟩ := List.cons.inj hsplit
        refine (h.filled before q after hrest).imp_right ?_
        rintro ⟨hmem, hbefore⟩
        obtain ⟨hne, hmem⟩ := Named.mem_remove_iff.mp hmem
        exact ⟨hmem, List.forall_mem_cons.mpr ⟨Ne.symm hne, hbefore⟩⟩

theorem length_filledSlots : (filledSlots fixed positional keywords).length = fixed.length := by
  fun_induction filledSlots fixed positional keywords with
  | case1 => rfl
  | case2 _ _ _ _ _ ih => exact congrArg Nat.succ ih
  | case3 _ _ _ ih => exact congrArg Nat.succ ih

theorem getElem?_filledSlots {before after : List Parameter} (h : fixed = before ++ p :: after) :
    (filledSlots fixed positional keywords)[before.length]? =
      some (slotOf positional keywords before p) := by
  induction before generalizing fixed positional keywords with
  | nil =>
    subst h
    cases positional with
    | nil => simp [filledSlots, slotOf]
    | cons v positional => simp [filledSlots, slotOf]
  | cons q before ih =>
    subst h
    cases positional with
    | cons v positional =>
      have hrest := @ih _ positional keywords rfl
      simpa [filledSlots, slotOf] using hrest
    | nil =>
      have hrest := @ih _ [] (keywords.remove q.name) rfl
      rw [List.cons_append, filledSlots, List.length_cons, List.getElem?_cons_succ, hrest]
      by_cases hq : q.name = p.name
      · simp [slotOf, Named.get?_remove, hq]
      · simp [slotOf, Named.get?_remove, hq]

theorem dropLast_tail (h : ∀ q ∈ (p :: parameters).dropLast, q.isRest = false) :
    ∀ q ∈ parameters.dropLast, q.isRest = false := by
  cases parameters with
  | nil => exact nofun
  | cons q parameters => exact (List.forall_mem_cons.mp h).2

theorem eq_nil_of_isRest (h : ∀ q ∈ (p :: parameters).dropLast, q.isRest = false)
    (hp : p.isRest = true) : parameters = [] := by
  cases parameters with
  | nil => rfl
  | cons q parameters =>
    rw [h p List.mem_cons_self] at hp
    cases hp

theorem bindFrom_eq_ok_iff {function : String} {slots : List (Option Value)} {rest : List Value}
    (hlast : ∀ p ∈ parameters.dropLast, p.isRest = false) {binding : Binding} :
    bindFrom function parameters positional keywords slots rest = .ok binding ↔
      Fits (parameters.filter (!·.isRest)) (parameters.any Parameter.isRest) positional keywords ∧
        binding =
          ⟨slots.reverse ++ filledSlots (parameters.filter (!·.isRest)) positional keywords,
            rest ++ positional.drop (parameters.filter (!·.isRest)).length⟩ := by
  fun_induction bindFrom function parameters positional keywords slots rest with
  | case1 slots rest => simp [fits_nil, filledSlots, eq_comm]
  | case2 keywords slots rest hk =>
    have hnot : ¬ Fits [] false [] keywords := fun h => hk (fits_nil.mp h).2
    simp [hnot]
  | case3 positional keywords slots rest _ hp =>
    have hnot : ¬ Fits [] false positional keywords := by
      intro h
      rcases (fits_nil.mp h).1 with hnil | hrest
      · exact hp hnil
      · cases hrest
    simp [hnot]
  | case4 p parameters positional keywords slots rest hr ih =>
    obtain rfl := eq_nil_of_isRest hlast hr
    rw [ih (dropLast_tail hlast)]
    simp [hr, fits_nil, filledSlots]
  | case5 p parameters keywords slots rest hr v positional w hw =>
    simp [hr, fits_placed, Named.mem_of_get? hw]
  | case6 p parameters keywords slots rest hr v positional hn ih =>
    rw [ih (dropLast_tail hlast)]
    simp [hr, fits_placed, filledSlots, Named.get?_eq_none_iff.mp hn]
  | case7 p parameters keywords slots rest hr v hv ih =>
    rw [ih (dropLast_tail hlast)]
    simp [hr, fits_named, filledSlots, hv, Named.mem_of_get? hv]
  | case8 p parameters keywords slots rest hr hn hd ih =>
    have hname := Named.get?_eq_none_iff.mp hn
    rw [ih (dropLast_tail hlast)]
    simp [hr, fits_named, filledSlots, hn, hd, Named.remove_of_not_mem hname]
  | case9 p parameters keywords slots rest hr hn hd =>
    simp [hr, fits_named, hd, Named.get?_eq_none_iff.mp hn]

end

section

variable {s : Signature} {positional : List Value} {keywords : Named Value} {binding : Binding}

theorem bind_eq_ok_iff (hs : s.RestIsLast) :
    s.bind positional keywords = .ok binding ↔
      Fits s.fixed (s.parameters.any Parameter.isRest) positional keywords ∧
        binding = ⟨filledSlots s.fixed positional keywords, positional.drop s.fixed.length⟩ :=
  bindFrom_eq_ok_iff hs

theorem Fits.isSome_default {hasRest : Bool} {before after : List Parameter} {p : Parameter}
    (h : Fits s.fixed hasRest positional keywords) (hsplit : s.fixed = before ++ p :: after)
    (hnone : slotOf positional keywords before p = none) : p.default.isSome = true := by
  by_cases hplace : before.length < positional.length
  · rw [slotOf, if_pos hplace, List.getElem?_eq_none_iff] at hnone
    omega
  · have hle : positional.length ≤ before.length := Nat.le_of_not_lt hplace
    have hdrop : s.fixed.drop positional.length =
        before.drop positional.length ++ p :: after := by
      rw [hsplit, List.drop_append_of_le_length hle]
    refine (h.filled _ p after hdrop).resolve_right ?_
    rintro ⟨hmem, hfirst⟩
    rw [slotOf, if_neg hplace, if_neg (fun ⟨q, hq, hname⟩ => hfirst q hq hname)] at hnone
    exact Named.get?_eq_none_iff.mp hnone hmem

theorem RestIsLast.length_parameters (h : s.RestIsLast) :
    s.parameters.length = s.fixed.length +
      if s.parameters.any Parameter.isRest then 1 else 0 := by
  rw [RestIsLast] at h
  rw [fixed]
  generalize s.parameters = parameters at h ⊢
  induction parameters with
  | nil => rfl
  | cons p parameters ih =>
    cases hp : p.isRest with
    | true =>
      obtain rfl := eq_nil_of_isRest h hp
      simp [hp]
    | false =>
      have hrest := ih (dropLast_tail h)
      simp only [List.length_cons, List.filter_cons, hp, List.any_cons, Bool.not_false, if_true,
        Bool.false_or]
      omega

end

/-! ## What the function is given -/

def IsGiven (default : Expr → Traced Value) (p : Parameter) (slot : Option Value) (v : Value) :
    Prop :=
  slot = some v ∨ slot = none ∧ ∃ e, p.default = some e ∧ (default e).Gives v

/-- The values that a function is given for the arguments of a call: one for each parameter, the
rest as a list. -/
structure Receives (s : Signature) (default : Expr → Traced Value) (positional : List Value)
    (keywords : Named Value) (values : List Value) : Prop where
  length : values.length = s.parameters.length
  given : ∀ before p after, s.fixed = before ++ p :: after →
    ∃ v, values[before.length]? = some v ∧
      IsGiven default p (slotOf positional keywords before p) v
  rest : s.parameters.any Parameter.isRest = true →
    values[s.fixed.length]? = some (.list (positional.drop s.fixed.length) .comma false)

end Signature

namespace Evaluation

open Signature (IsGiven)

variable {default : Expr → Traced Value}

def AreGiven (default : Expr → Traced Value) (parameters : List Parameter)
    (slots : List (Option Value)) (values : List Value) : Prop :=
  values.length = parameters.length ∧
    ∀ (i : Nat) p slot, parameters[i]? = some p → slots[i]? = some slot →
      ∃ v, values[i]? = some v ∧ IsGiven default p slot v

theorem AreGiven.cons {parameters : List Parameter} {slots : List (Option Value)}
    {values : List Value} (h : AreGiven default parameters slots values) {p : Parameter}
    {slot : Option Value} {v : Value} (hv : IsGiven default p slot v) :
    AreGiven default (p :: parameters) (slot :: slots) (v :: values) := by
  refine ⟨congrArg Nat.succ h.1, fun i q other hq hother => ?_⟩
  cases i with
  | zero =>
    cases hq
    cases hother
    exact ⟨v, rfl, hv⟩
  | succ i => exact h.2 i q other hq hother

theorem fillSlots_gives {slots : List (Option Value)} {parameters : List Parameter}
    (h : slots.length = parameters.length) :
    (fillSlots default slots parameters).Ensures (AreGiven default parameters slots) := by
  induction slots generalizing parameters with
  | nil =>
    obtain rfl := List.eq_nil_of_length_eq_zero h.symm
    exact Traced.ensures_pure ⟨rfl, nofun⟩
  | cons slot slots ih =>
    cases parameters with
    | nil => cases h
    | cons p parameters =>
      have hrest (v : Value) (hv : IsGiven default p slot v) :
          (do return v :: (← fillSlots default slots parameters) : Traced (List Value)).Ensures
            (AreGiven default (p :: parameters) (slot :: slots)) :=
        (ih (Nat.succ.inj h)).bind fun values hvalues => Traced.ensures_pure (hvalues.cons hv)
      cases slot with
      | some v => exact hrest v (Or.inl rfl)
      | none =>
        simp only [fillSlots]
        cases hd : p.default with
        | none =>
          have hmissing := @Traced.ensures_throw Value (fun _ => False) (.missingArgument p.name "")
          exact hmissing.bind fun _ => False.elim
        | some e =>
          have hdefault : (default e).Ensures (default e).Gives :=
            fun trace v after hv => ⟨trace, after, hv⟩
          exact hdefault.bind fun v hv => hrest v (Or.inr ⟨rfl, e, hd, hv⟩)

theorem prepare_receives {f : Function} (hs : f.signature.RestIsLast) (positional : List Value)
    (keywords : Named Value) :
    (prepare default f positional keywords).Ensures
      (f.signature.Receives default positional keywords) := by
  have hbind : (f.signature.bind positional keywords).Ensures
      (f.signature.bind positional keywords = .ok ·) := fun _ h => h
  refine (Traced.ensures_lift hbind).bind fun binding h => ?_
  obtain ⟨hfits, rfl⟩ := (Signature.bind_eq_ok_iff hs).mp h
  refine (fillSlots_gives Signature.length_filledSlots).bind fun values hvalues => ?_
  obtain ⟨hlength, hgiven⟩ := hvalues
  have hparameters := hs.length_parameters
  have hvalue : ∀ before p after, f.signature.fixed = before ++ p :: after →
      ∃ v, values[before.length]? = some v ∧
        IsGiven default p (Signature.slotOf positional keywords before p) v := by
    intro before p after hsplit
    have hp : f.signature.fixed[before.length]? = some p := by
      simp [hsplit]
    exact hgiven before.length p _ hp (Signature.getElem?_filledSlots hsplit)
  refine Traced.ensures_pure ?_
  split
  · next hrest =>
    rw [if_pos hrest] at hparameters
    refine ⟨?_, fun before p after hsplit => ?_, fun _ => ?_⟩
    · rw [List.length_append, hlength, hparameters]
      rfl
    · obtain ⟨v, hv, hgiven⟩ := hvalue before p after hsplit
      obtain ⟨hlt, -⟩ := List.getElem?_eq_some_iff.mp hv
      exact ⟨v, (List.getElem?_append_left hlt).trans hv, hgiven⟩
    · rw [← hlength]
      exact List.getElem?_concat_length
  · next hrest =>
    rw [if_neg hrest] at hparameters
    exact ⟨by rw [hlength, hparameters]; rfl, hvalue, fun h => absurd h hrest⟩

/-- Exactly the arguments that fit are bound. Each parameter that takes one argument has a slot,
which stays empty only where there is a default; nothing that is supplied is lost or comes twice.
The function is called with one value for each parameter. -/
theorem bind_iff_fits {text : String} {s : Signature} (h : Signature.read text = .ok s)
    (positional : List Value) {keywords : Named Value} (hk : (keywords.map Prod.fst).Nodup) :
    ((∃ binding, s.bind positional keywords = .ok binding) ↔
      Signature.Fits s.fixed (s.parameters.any Parameter.isRest) positional keywords) ∧
    (∀ binding, s.bind positional keywords = .ok binding →
      binding.slots.length = s.fixed.length ∧
      (∀ before p after, s.fixed = before ++ p :: after →
        binding.slots[before.length]? = some (Signature.slotOf positional keywords before p) ∧
          (Signature.slotOf positional keywords before p = none → p.default.isSome = true)) ∧
      binding.rest = positional.drop s.fixed.length ∧
      s.Delivers binding (Supply.ofPlaces positional ++ Supply.ofNames keywords)) ∧
    ∀ (scope : Scope) (default : Expr → Traced Value) (name : String) (f : Function),
      scope.functions.find? name = some f → f.signature = s →
      call scope default name positional keywords =
        prepare default f positional keywords >>= invoke f ∧
      (prepare default f positional keywords).Ensures
        (s.Receives default positional keywords) := by
  have hs := Signature.restIsLast_of_read h
  refine ⟨⟨?_, fun hfits => ⟨_, (Signature.bind_eq_ok_iff hs).mpr ⟨hfits, rfl⟩⟩⟩, ?_, ?_⟩
  · rintro ⟨binding, hbind⟩
    exact ((Signature.bind_eq_ok_iff hs).mp hbind).1
  · intro binding hbind
    obtain ⟨hfits, rfl⟩ := (Signature.bind_eq_ok_iff hs).mp hbind
    refine ⟨Signature.length_filledSlots, fun before p after hsplit => ?_, rfl,
      Signature.delivers_of_bind hk hbind⟩
    exact ⟨Signature.getElem?_filledSlots hsplit, hfits.isSome_default hsplit⟩
  · rintro scope default name f hf rfl
    exact ⟨call_of_find? hf positional keywords, prepare_receives hs positional keywords⟩

/-- The keyword is for the first of two parameters with its name, the other has its default. -/
theorem bind_iff_fits_repeated :
    ∃ s, Signature.read "f($a, $b: 1, $c, $c: a, $d...)" = .ok s ∧
      Signature.Fits s.fixed true [.string "x"] [("c", .string "y")] ∧
      s.bind [.string "x"] [("c", .string "y")] =
        .ok ⟨[some (.string "x"), none, some (.string "y"), none], []⟩ := by
  refine ⟨_, rfl, ?_, rfl⟩
  have hall := @bind_iff_fits "f($a, $b: 1, $c, $c: a, $d...)" _ rfl [.string "x"]
    [("c", .string "y")] (by decide)
  exact hall.1.mp ⟨_, rfl⟩

end Evaluation

end SassData
