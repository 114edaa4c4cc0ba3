import SassData.Proofs.Evaluation.ValueInvariants
import SassData.Proofs.Source.TokenShapes

/-!
# Units stay reduced

A numeral brings at most one unit, and it is a percent sign or a word of letters. Sums take over the
units of an operand, products and quotients cancel what stands on both sides, and everything else
only passes numbers on. So in a session with the built-in functions no number ever has a unit both
above and below the line, and no unit is anything but such a sign or word.
-/

namespace SassData

set_option autoImplicit false

def Unit.IsPlain (token : String) : Prop :=
  token = "%" ∨ token ≠ "" ∧ ∀ c ∈ token.toList, c.isAlpha ∨ c = '_'

namespace Number

/-- No unit is left to be cancelled, and all are plain. -/
structure IsReduced (n : Number) : Prop where
  apart : ∀ token ∈ n.above, token ∉ n.below
  plain : ∀ token ∈ n.above ++ n.below, Unit.IsPlain token

variable {a b c n : Number} {op : String}

theorem isReduced_of_units (h : n.IsReduced) {m : Number} (ha : m.above = n.above)
    (hb : m.below = n.below) : m.IsReduced := by
  constructor
  · rw [ha, hb]
    exact h.apart
  · rw [ha, hb]
    exact h.plain

theorem isReduced_ofInt (n : Int) : (ofInt n).IsReduced := ⟨nofun, nofun⟩

theorem IsReduced.negated (h : n.IsReduced) : n.negated.IsReduced := isReduced_of_units h rfl rfl

theorem plain_cancel {above below : List String}
    (h : ∀ token ∈ above ++ below, Unit.IsPlain token) :
    ∀ token ∈ (Unit.cancel above below).1 ++ (Unit.cancel above below).2, Unit.IsPlain token := by
  intro token ht
  apply h token
  rcases List.mem_append.mp ht with ht | ht
  · exact List.mem_append_left below (Unit.mem_of_mem_cancel_above ht)
  · exact List.mem_append_right above (Unit.mem_of_mem_cancel_below ht)

theorem isReduced_cancel {above below : List String} (magnitude : Magnitude)
    (h : ∀ token ∈ above ++ below, Unit.IsPlain token) :
    (⟨magnitude, (Unit.cancel above below).1, (Unit.cancel above below).2⟩ : Number).IsReduced :=
  ⟨Unit.cancel_disjoint above below, plain_cancel h⟩

theorem agreeing_mem (h : a.agreeing b op = .ok c) : c = a ∨ c = b := by
  unfold agreeing at h
  split at h
  · cases h
    exact Or.inl rfl
  · split at h <;> cases h
    exact Or.inr rfl

theorem isReduced_additive {f : Magnitude → Magnitude → Except ArithmeticFault Magnitude}
    (ha : a.IsReduced) (hb : b.IsReduced) : (additive op f a b).Ensures IsReduced := by
  intro c h
  obtain ⟨units, hu, h⟩ := Outcome.bind_eq_ok_iff.mp h
  obtain ⟨magnitude, -, h⟩ := Outcome.bind_eq_ok_iff.mp h
  cases h
  rcases agreeing_mem hu with rfl | rfl
  · exact isReduced_of_units ha rfl rfl
  · exact isReduced_of_units hb rfl rfl

theorem isReduced_times (ha : a.IsReduced) (hb : b.IsReduced) :
    (a.times b).Ensures IsReduced := by
  refine Outcome.ensures_bind fun magnitude => Outcome.ensures_ok (isReduced_cancel magnitude ?_)
  have ha := ha.plain
  have hb := hb.plain
  simp only [List.forall_mem_append] at ha hb ⊢
  exact ⟨⟨ha.1, hb.1⟩, ha.2, hb.2⟩

theorem isReduced_dividedBy (ha : a.IsReduced) (hb : b.IsReduced) :
    (a.dividedBy b).Ensures IsReduced := by
  refine Outcome.ensures_bind fun magnitude => Outcome.ensures_ok (isReduced_cancel magnitude ?_)
  have ha := ha.plain
  have hb := hb.plain
  simp only [List.forall_mem_append] at ha hb ⊢
  exact ⟨⟨ha.1, hb.2⟩, ha.2, hb.1⟩

end Number

namespace Source

theorem isPlain_spanUnit (text : List Char) :
    ∀ token ∈ if (spanUnit text).1.isEmpty then [] else [String.ofList (spanUnit text).1],
      Unit.IsPlain token := by
  cases hu : (spanUnit text).1 with
  | nil => exact nofun
  | cons c unit =>
    refine List.forall_mem_singleton.mpr ?_
    unfold spanUnit at hu
    split at hu
    · cases hu
      exact Or.inl rfl
    · rw [List.span_eq_takeWhile_dropWhile] at hu
      refine Or.inr ⟨by simp, fun d hd => ?_⟩
      have hstart : Text.isNameStart d = true := by
        rw [String.toList_ofList, ← hu] at hd
        exact List.all_eq_true.mp List.all_takeWhile d hd
      simpa [Text.isNameStart] using hstart

theorem isReduced_number? {text rest : List Char} {n : Number} (h : number? text = some (n, rest)) :
    n.IsReduced := by
  simp only [number?, Option.bind_eq_bind, Option.bind_eq_some_iff, Option.pure_def] at h
  obtain ⟨⟨digits, places, left⟩, -, h⟩ := h
  simp only [Option.some.injEq, Prod.mk.injEq] at h
  obtain ⟨rfl, -⟩ := h
  refine ⟨fun token _ => List.not_mem_nil, ?_⟩
  rw [List.append_nil]
  exact isPlain_spanUnit _

theorem isReduced_of_isToken {n : Number} (h : IsToken (.number n)) : n.IsReduced := by
  obtain ⟨text, rest, hn⟩ := isShaped_of_isToken h
  exact isReduced_number? hn

end Source

/-! ## Numbers in values -/

namespace Value

mutual

def numbers : Value → List Number
  | number n => [n]
  | list items _ _ => itemNumbers items
  | map pairs => pairNumbers pairs
  | null | bool _ | color _ | string _ | custom _ _ => []

def itemNumbers : List Value → List Number
  | [] => []
  | item :: rest => item.numbers ++ itemNumbers rest

def pairNumbers : List (Value × Value) → List Number
  | [] => []
  | (key, value) :: rest => key.numbers ++ value.numbers ++ pairNumbers rest

end

/-- Every number in the value is reduced. -/
def IsReduced (v : Value) : Prop := ∀ n ∈ v.numbers, n.IsReduced

theorem isReduced_list_iff {items : List Value} {separator : Separator} {bracketed : Bool} :
    (list items separator bracketed).IsReduced ↔ ∀ v ∈ items, v.IsReduced := by
  simp only [IsReduced, numbers]
  induction items with
  | nil => simp [itemNumbers]
  | cons item rest ih => rw [itemNumbers, List.forall_mem_append, ih, List.forall_mem_cons]

theorem isReduced_map_iff {pairs : List (Value × Value)} :
    (map pairs).IsReduced ↔ ∀ pair ∈ pairs, pair.1.IsReduced ∧ pair.2.IsReduced := by
  simp only [IsReduced, numbers]
  induction pairs with
  | nil => simp [pairNumbers]
  | cons pair rest ih =>
    rw [pairNumbers, List.forall_mem_append, List.forall_mem_append, ih, List.forall_mem_cons]

theorem isReduced_number_iff {n : Number} : (number n).IsReduced ↔ n.IsReduced :=
  List.forall_mem_singleton

theorem isReduced_of_numbers_eq_nil {v : Value} (h : v.numbers = []) : v.IsReduced := by
  rw [IsReduced, h]
  exact nofun

theorem isPartwise_isReduced : IsPartwise IsReduced :=
  ⟨isReduced_of_numbers_eq_nil rfl, isReduced_list_iff, isReduced_map_iff⟩

theorem isReduced_hold {v : Value} (count : Nat) (h : v.IsReduced) :
    (v.hold count).1.IsReduced := by
  refine isPartwise_isReduced.hold ⟨?_, ?_, ?_⟩ v count h
  · intro n count hn
    exact isReduced_number_iff.mpr (Number.isReduced_of_units (isReduced_number_iff.mp hn) rfl rfl)
  · exact fun _ _ _ => isReduced_of_numbers_eq_nil rfl
  · exact fun _ _ _ _ => isReduced_of_numbers_eq_nil rfl

/-! ## Operators -/

theorem isReduced_onNumbers {op : BinaryOp} {a b : Number} (ha : a.IsReduced) (hb : b.IsReduced) :
    (Operation.onNumbers op a b).Ensures IsReduced := by
  have harithmetic {x : Outcome Number} (h : x.Ensures Number.IsReduced) :
      (Value.number <$> x).Ensures IsReduced :=
    Outcome.ensures_map fun n hn => isReduced_number_iff.mpr (h n hn)
  have hordered (test : Number.Magnitude → Bool) :
      Outcome.Ensures IsReduced (do return .bool (test (← a.compare b))) :=
    Outcome.ensures_bind fun d => Outcome.ensures_ok (isReduced_of_numbers_eq_nil rfl)
  cases op with
  | add | sub | mod => exact harithmetic (Number.isReduced_additive ha hb)
  | mul => exact harithmetic (Number.isReduced_times ha hb)
  | div => exact harithmetic (Number.isReduced_dividedBy ha hb)
  | lt | le | gt | ge => exact hordered _
  | or | and | eq | ne => exact Outcome.ensures_error _

theorem numbers_concat (text : String) (v : Value) : (concat text v).numbers = [] := by
  unfold concat
  cases Text.mark? text <;> rfl

theorem isReduced_onTexts (op : BinaryOp) (a b : Value) :
    (Operation.onTexts op a b).Ensures IsReduced := by
  unfold Operation.onTexts
  split
  · exact Outcome.ensures_ok (isReduced_of_numbers_eq_nil (numbers_concat _ _))
  · exact Outcome.ensures_ok (isReduced_of_numbers_eq_nil rfl)
  · exact Outcome.ensures_ok (isReduced_of_numbers_eq_nil rfl)
  · exact Outcome.ensures_ok (isReduced_of_numbers_eq_nil rfl)
  · exact Outcome.ensures_error _

theorem isReduced_apply {op : BinaryOp} {a b : Value} (ha : a.IsReduced) (hb : b.IsReduced) :
    (Operation.apply op a b).Ensures IsReduced := by
  unfold Operation.apply
  split
  · exact Outcome.ensures_map fun _ _ => isReduced_of_numbers_eq_nil rfl
  · exact Outcome.ensures_bind fun _ => Outcome.ensures_ok (isReduced_of_numbers_eq_nil rfl)
  · exact isReduced_onNumbers (isReduced_number_iff.mp ha) (isReduced_number_iff.mp hb)
  · exact isReduced_onTexts _ _ _

theorem isReduced_applyUnary {op : UnaryOp} {v : Value} (h : v.IsReduced) :
    (Operation.applyUnary op v).IsReduced := by
  unfold Operation.applyUnary
  split
  · exact isReduced_of_numbers_eq_nil rfl
  · exact isReduced_number_iff.mpr (isReduced_number_iff.mp h).negated
  · exact isReduced_of_numbers_eq_nil rfl

theorem isInvariant_isReduced : IsInvariant IsReduced where
  null := isReduced_of_numbers_eq_nil rfl
  list_iff := isReduced_list_iff
  map_iff := isReduced_map_iff
  hold := isReduced_hold
  unary := isReduced_applyUnary
  binary := isReduced_apply
  plainCall _ := isReduced_of_numbers_eq_nil rfl

end Value

theorem Source.Reading.numbers_wordValue (word : String) : (wordValue word).numbers = [] := by
  unfold wordValue
  split
  · rfl
  split
  · rfl
  split
  · rfl
  split <;> rfl

theorem Source.ofTokens_isReduced : OfTokens Value.IsReduced where
  null := Value.isReduced_of_numbers_eq_nil rfl
  token ht hd := by
    cases hd with
    | number n => exact Value.isReduced_number_iff.mpr (isReduced_of_isToken ht)
    | string text => exact Value.isReduced_of_numbers_eq_nil rfl
    | hash h => exact Value.isReduced_of_numbers_eq_nil rfl
    | word word => exact Value.isReduced_of_numbers_eq_nil (Reading.numbers_wordValue word)

theorem Builtin.makesOnly_isReduced : MakesOnly Value.IsReduced where
  rgb _ _ _ _ := Outcome.ensures_bind fun _ => Outcome.ensures_bind fun _ =>
    Outcome.ensures_bind fun _ => Outcome.ensures_bind fun _ => Outcome.ensures_bind fun _ =>
      Outcome.ensures_ok (Value.isReduced_of_numbers_eq_nil rfl)
  hsl _ _ _ _ := Outcome.ensures_bind fun _ => Outcome.ensures_bind fun _ =>
    Outcome.ensures_bind fun _ => Outcome.ensures_bind fun _ => Outcome.ensures_bind fun _ =>
      Outcome.ensures_ok (Value.isReduced_of_numbers_eq_nil rfl)
  integer n := Value.isReduced_number_iff.mpr (Number.isReduced_ofInt n)
  typeOf _ := Outcome.ensures_ok (Value.isReduced_of_numbers_eq_nil rfl)
  unit _ := Outcome.ensures_bind fun _ => Outcome.ensures_ok (Value.isReduced_of_numbers_eq_nil rfl)
  unitless _ :=
    Outcome.ensures_bind fun _ => Outcome.ensures_ok (Value.isReduced_of_numbers_eq_nil rfl)
  quote _ :=
    Outcome.ensures_bind fun _ => Outcome.ensures_ok (Value.isReduced_of_numbers_eq_nil rfl)
  unquote _ :=
    Outcome.ensures_bind fun _ => Outcome.ensures_ok (Value.isReduced_of_numbers_eq_nil rfl)

/-! ## Sessions -/

namespace Session

/-- After any style sheets, whether they fail or not, every number that a variable holds is reduced,
and so is every number in the value of an expression. -/
theorem isReduced_runSources (sources : List String) :
    (∀ name v, ((start []).runSources sources).assigned.get? name = some v → v.IsReduced) ∧
      ∀ text e, Source.Occurs e text → ∀ v trace,
        ((start []).runSources sources).evaluate e = .ok (v, trace) → v.IsReduced := by
  have hP := Value.isInvariant_isReduced
  have hread := Source.ofTokens_isReduced
  have hkeeps := (keeps_start hP Builtin.makesOnly_isReduced).runSources hP hread sources
  constructor
  · intro name v hv
    exact hkeeps.assigned.get? hv
  · intro text e he v trace h
    exact hkeeps.evaluate hP (Source.leavesAre_of_occurs hread.ofLeaves he) (v, trace) h

/-- The first style sheet fails behind its variable, and the second divides by one of its units. -/
theorem isReduced_runSources_divided :
    ∃ v trace, Source.Occurs (.variable "b") "$b" ∧
      ((start []).runSources ["$a: 6px*2em; @error $a;", "$b: [$a/3px, 50%*1s];"]).evaluate
        (.variable "b") = .ok (v, trace) ∧
      v.numbers.map (fun n => (n.above, n.below)) = [(["em"], []), (["%", "s"], [])] ∧
      v.IsReduced := by
  have hunits : (((start []).runSources
      ["$a: 6px*2em; @error $a;", "$b: [$a/3px, 50%*1s];"]).evaluate (.variable "b")).toOption.map
      (fun result => result.1.numbers.map fun n => (n.above, n.below)) =
        some [(["em"], []), (["%", "s"], [])] := by decide +kernel
  have hoccurs : Source.Occurs (.variable "b") "$b" := Or.inl rfl
  cases hv : ((start []).runSources
      ["$a: 6px*2em; @error $a;", "$b: [$a/3px, 50%*1s];"]).evaluate (.variable "b") with
  | error failure =>
    rw [hv] at hunits
    cases hunits
  | ok result =>
    obtain ⟨v, trace⟩ := result
    rw [hv] at hunits
    have hreduced := (isReduced_runSources _).2 "$b" _ hoccurs v trace hv
    exact ⟨v, trace, hoccurs, rfl, Option.some.inj hunits, hreduced⟩

end Session

end SassData
