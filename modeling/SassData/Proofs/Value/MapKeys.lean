import SassData.Proofs.Literal.LiteralTexts
import SassData.Proofs.Value.StructuralEquality

/-!
# Keys of maps

A map is built with the equality of the language: no key is equal to one before it. It is looked
into with structural equality. For keys that are no numbers the two come to the same, so the one
pair whose key is equal is found. Among numbers the equality of the language allows for a tolerance
and for units in another order, which structural equality does not, and it denies that an infinity
is equal to itself.
-/

namespace SassData

set_option autoImplicit false

namespace Value

/-- The keys are told apart by the equality of the language. -/
def Distinct (pairs : List (Value × Value)) : Prop :=
  pairs.Pairwise fun earlier later => later.1.equals earlier.1 = .ok false

def isKey (k : Value) (pair : Value × Value) : Bool :=
  match pair.1.equals k with
  | .ok b => b
  | .error _ => false

theorem isKey_iff {k : Value} {pair : Value × Value} :
    isKey k pair = true ↔ pair.1.equals k = .ok true := by
  unfold isKey
  cases pair.1.equals k with
  | error failure => simp
  | ok b => simp

/-- The look-up of a value in a map goes by the equality of the language: a pair whose key is equal
to it is the only one and is found, and without one there is null. -/
def Agrees (pairs : List (Value × Value)) (k : Value) : Prop :=
  (∀ pair ∈ pairs, isKey k pair = true →
    pairs.filter (isKey k) = [pair] ∧
      Builtin.mapGet (.map pairs) k (.list [] .comma false) = .ok pair.2) ∧
  ((∀ pair ∈ pairs, isKey k pair = false) →
    Builtin.mapGet (.map pairs) k (.list [] .comma false) = .ok .null)

/-! ## Maps that have been built -/

theorem equals_of_hasKey {key : Value} {before : List (Value × Value)}
    (h : Evaluation.hasKey key before = .ok false) :
    ∀ pair ∈ before, key.equals pair.1 = .ok false := by
  induction before with
  | nil => exact List.forall_mem_nil _
  | cons pair rest ih =>
    obtain ⟨found, he, h⟩ := Outcome.bind_eq_ok_iff.mp h
    cases found with
    | true => cases h
    | false =>
      intro p hp
      rcases List.mem_cons.mp hp with rfl | hp
      · exact he
      · exact ih h p hp

section

variable {scope : Scope} {default : Expr → Traced Value}

/-- A key is added only if it is told apart from all before it. -/
theorem distinct_of_evaluatePairs {before m : List (Value × Value)} {pairs : List (Expr × Expr)}
    {trace after : List Invocation} (hbefore : Distinct before)
    (h : Evaluation.evaluatePairs scope default before pairs trace = .ok (m, after)) :
    Distinct m := by
  induction pairs generalizing before trace with
  | nil =>
    rw [Evaluation.evaluatePairs] at h
    cases h
    exact hbefore
  | cons pair pairs ih =>
    obtain ⟨key, value⟩ := pair
    obtain ⟨k, v, middle, last, -, hfound, -, h⟩ := Evaluation.exists_of_evaluatePairs_cons h
    refine ih ?_ h
    rw [Distinct, List.pairwise_append]
    refine ⟨hbefore, List.pairwise_singleton _ _, ?_⟩
    intro p hp q hq
    obtain rfl := List.mem_singleton.mp hq
    exact equals_of_hasKey hfound p hp

theorem distinct_of_evaluateWith {m : List (Value × Value)} {pairs : List (Expr × Expr)}
    {trace after : List Invocation}
    (h : Evaluation.evaluateWith scope default (.map pairs) trace = .ok (.map m, after)) :
    Distinct m := by
  rw [Evaluation.evaluateWith] at h
  obtain ⟨m', middle, h, hm⟩ := Traced.bind_eq_ok_iff.mp h
  cases hm
  exact distinct_of_evaluatePairs .nil h

end

/-! ## Equality outside numbers -/

theorem equals_eq_sameKey {a b : Value} (h : ∀ n, b ≠ .number n) :
    a.equals b = .ok (sameKey a b) := by
  unfold equals
  split
  · rfl
  · exact absurd rfl (h _)
  · unfold sameKey
    split
    · next hs _ => exact absurd rfl (hs _ _ rfl)
    · rfl

theorem isKey_eq_sameKey {k : Value} (h : ∀ n, k ≠ .number n) (pair : Value × Value) :
    isKey k pair = sameKey pair.1 k := by
  rw [isKey, equals_eq_sameKey h]

theorem sameKey_eq_same {a b : Value} (h : ∀ s t, a = .string s → b ≠ .string t) :
    sameKey a b = a.same b := by
  unfold sameKey
  split
  · exact absurd rfl (h _ _ rfl)
  · rfl

theorem exists_string_of_sameKey {a : Value} {t : String} (h : sameKey a (.string t) = true) :
    ∃ s, a = .string s ∧ Text.unquote s = Text.unquote t := by
  cases a with
  | string s => exact ⟨s, rfl, beq_iff_eq.mp h⟩
  | _ => cases h

theorem sameKey_of_sameKey {a b c : Value} (ha : sameKey a c = true) (hb : sameKey b c = true) :
    sameKey a b = true := by
  by_cases hc : ∃ t, c = .string t
  · obtain ⟨t, rfl⟩ := hc
    obtain ⟨s, rfl, hs⟩ := exists_string_of_sameKey ha
    obtain ⟨u, rfl, hu⟩ := exists_string_of_sameKey hb
    exact beq_iff_eq.mpr (hs.trans hu.symm)
  · have hstring (x : Value) (hx : sameKey x c = true) : x.same c = true := by
      rwa [sameKey_eq_same fun _ t _ ht => hc ⟨t, ht⟩] at hx
    have hsame := hstring a ha
    rw [sameKey_eq_same]
    · exact same_of_same a b c hsame (hstring b hb)
    · rintro s t rfl
      cases c <;> simp_all [same]

theorem ne_number_of_sameKey {a k : Value} (h : ∀ n, k ≠ .number n) (ha : sameKey a k = true)
    (n : Number) : a ≠ .number n := by
  rintro rfl
  cases k <;> simp_all [sameKey, same]

/-! ## The pair that is found -/

theorem filter_eq_singleton {α : Type} {p : α → Bool} {l : List α}
    (h : l.Pairwise fun a b => ¬ (p a = true ∧ p b = true)) {a : α} (ha : a ∈ l)
    (hp : p a = true) : l.filter p = [a] := by
  induction l with
  | nil => cases ha
  | cons b l ih =>
    obtain ⟨hb, hl⟩ := List.pairwise_cons.mp h
    rcases List.mem_cons.mp ha with rfl | ha
    · rw [List.filter_cons_of_pos hp, List.filter_eq_nil_iff.mpr]
      exact fun c hc hpc => hb c hc ⟨hp, hpc⟩
    · rw [List.filter_cons_of_neg fun hpb => hb a ha ⟨hpb, hp⟩, ih hl ha]

theorem lookup?_eq (pairs : List (Value × Value)) (k : Value) :
    lookup? pairs k = (pairs.filter fun pair => sameKey pair.1 k).getLast?.map Prod.snd := by
  rw [lookup?, ← List.head?_filter, List.filter_reverse, List.head?_reverse]

theorem mapGet_eq (pairs : List (Value × Value)) (k : Value) :
    Builtin.mapGet (.map pairs) k (.list [] .comma false) =
      .ok ((lookup? pairs k).getD .null) := by
  change Except.ok (Builtin.follow (.map pairs) [k]) = _
  rw [Builtin.follow]
  cases lookup? pairs k <;> rfl

theorem filter_isKey_of_none {pairs : List (Value × Value)} {k : Value}
    (h : ∀ pair ∈ pairs, isKey k pair = false) : pairs.filter (isKey k) = [] :=
  List.filter_eq_nil_iff.mpr fun pair hp => Bool.eq_false_iff.mp (h pair hp)

theorem mapGet_of_filter {pairs : List (Value × Value)} {k : Value} {found : List (Value × Value)}
    (h : (pairs.filter fun pair => sameKey pair.1 k) = found) :
    Builtin.mapGet (.map pairs) k (.list [] .comma false) =
      .ok ((found.getLast?.map Prod.snd).getD .null) := by
  rw [mapGet_eq, lookup?_eq, h]

/-! ## Keys that are no numbers -/

section

variable {pairs : List (Value × Value)} {k : Value}

/-- In a map that has been built only one key is equal to a value that is no number. -/
theorem filter_isKey_of_ne_number (hd : Distinct pairs) (h : ∀ n, k ≠ .number n)
    {pair : Value × Value} (hp : pair ∈ pairs) (hk : isKey k pair = true) :
    pairs.filter (isKey k) = [pair] := by
  refine filter_eq_singleton (hd.imp ?_) hp hk
  rintro earlier later hne ⟨he, hl⟩
  rw [isKey_eq_sameKey h] at he hl
  rw [equals_eq_sameKey (ne_number_of_sameKey h he), sameKey_of_sameKey hl he] at hne
  cases hne

theorem agrees_of_ne_number (hd : Distinct pairs) (h : ∀ n, k ≠ .number n) : Agrees pairs k := by
  have hsame : (fun pair : Value × Value => sameKey pair.1 k) = isKey k :=
    funext fun pair => (isKey_eq_sameKey h pair).symm
  constructor
  · intro pair hp hk
    have hone := filter_isKey_of_ne_number hd h hp hk
    refine ⟨hone, ?_⟩
    rw [← hsame] at hone
    exact mapGet_of_filter hone
  · intro hnone
    have hnil := filter_isKey_of_none hnone
    rw [← hsame] at hnil
    exact mapGet_of_filter hnil

end

/-! ## Numbers as keys -/

section

variable {pairs : List (Value × Value)} {n : Number}

theorem isKey_of_sameKey (hn : n.magnitude.isFinite = true) {pair : Value × Value}
    (h : sameKey pair.1 (.number n) = true) : isKey (.number n) pair = true := by
  obtain ⟨key, v⟩ := pair
  cases key with
  | number a =>
    simp only [sameKey, same, Bool.and_eq_true, beq_iff_eq] at h
    obtain ⟨⟨hsame, habove⟩, hbelow⟩ := h
    have hunits : a.sameUnits n = true := by
      simp [Number.sameUnits, Unit.sameTokens, habove, hbelow, List.isPerm_iff]
    rw [isKey_iff, equals, if_pos hunits, Number.Magnitude.close_of_same hsame hn]
    rfl
  | _ => cases h

theorem isKey_of_not_finite (hn : n.magnitude.isFinite = false) (pair : Value × Value) :
    isKey (.number n) pair = false := by
  obtain ⟨key, v⟩ := pair
  rw [Bool.eq_false_iff]
  intro h
  rw [isKey_iff] at h
  cases key with
  | number a =>
    rw [equals] at h
    split at h
    · have hclose := @Number.Magnitude.close_ne_of_not_finite a.magnitude n.magnitude hn
      cases hc : a.magnitude.close n.magnitude with
      | error fault =>
        rw [hc] at h
        cases h
      | ok found =>
        rw [hc] at h hclose
        cases h
        exact hclose rfl
    · cases h
  | _ => cases h

/-- Look-up finds nothing that the equality of the language does not. -/
theorem filter_sameKey (hn : n.magnitude.isFinite = true) :
    pairs.filter (fun pair => sameKey pair.1 (.number n)) =
      (pairs.filter (isKey (.number n))).filter fun pair => sameKey pair.1 (.number n) := by
  rw [List.filter_filter]
  refine List.filter_congr fun pair _ => ?_
  cases hs : sameKey pair.1 (.number n) with
  | false => rfl
  | true => exact (isKey_of_sameKey hn hs).symm

/-- Where one key is equal, look-up finds it or nothing. -/
theorem mapGet_of_singleton (hn : n.magnitude.isFinite = true) {pair : Value × Value}
    (hf : pairs.filter (isKey (.number n)) = [pair]) :
    Builtin.mapGet (.map pairs) (.number n) (.list [] .comma false) =
      .ok (if sameKey pair.1 (.number n) then pair.2 else .null) := by
  rw [mapGet_of_filter (filter_sameKey hn), hf, List.filter_cons, List.filter_nil]
  cases sameKey pair.1 (.number n) <;> rfl

/-- A finite number is found where it is equal to one key at most, up to nulls, and that one is the
same number. -/
theorem agrees_number_iff (hn : n.magnitude.isFinite = true) :
    Agrees pairs (.number n) ↔ ∀ pair ∈ pairs, isKey (.number n) pair = true →
      pairs.filter (isKey (.number n)) = [pair] ∧
        (sameKey pair.1 (.number n) = true ∨ pair.2 = .null) := by
  constructor
  · rintro ⟨hfound, -⟩ pair hp hk
    obtain ⟨hone, hget⟩ := hfound pair hp hk
    refine ⟨hone, ?_⟩
    rw [mapGet_of_singleton hn hone] at hget
    split at hget
    · next hs => exact Or.inl hs
    · exact Or.inr (Except.ok.inj hget).symm
  · intro hall
    constructor
    · intro pair hp hk
      obtain ⟨hone, hs | hnull⟩ := hall pair hp hk
      · exact ⟨hone, by rw [mapGet_of_singleton hn hone, if_pos hs]⟩
      · exact ⟨hone, by rw [mapGet_of_singleton hn hone, hnull, ite_self]⟩
    · intro hnone
      have hnil := @filter_sameKey pairs n hn
      rw [filter_isKey_of_none hnone] at hnil
      exact mapGet_of_filter hnil

theorem agrees_number_not_finite_iff (hn : n.magnitude.isFinite = false) :
    Agrees pairs (.number n) ↔
      lookup? pairs (.number n) = none ∨ lookup? pairs (.number n) = some .null := by
  have hnone (pair : Value × Value) : isKey (.number n) pair ≠ true :=
    Bool.eq_false_iff.mp (isKey_of_not_finite hn pair)
  constructor
  · rintro ⟨-, hnull⟩
    have hget := hnull fun pair _ => isKey_of_not_finite hn pair
    rw [mapGet_eq] at hget
    cases hl : lookup? pairs (.number n) with
    | none => exact Or.inl rfl
    | some v =>
      rw [hl] at hget
      exact Or.inr (congrArg some (Except.ok.inj hget))
  · intro hl
    refine ⟨fun pair _ hk => absurd hk (hnone pair), fun _ => ?_⟩
    rw [mapGet_eq]
    rcases hl with hl | hl <;> rw [hl] <;> rfl

end

/-- Look-up in a map that has been built goes by the equality of the language for every value that
is no number. For a finite number it does exactly if a key that is equal to it is the only one and
has the same magnitude and its units in the same order, unless it stands for null; for any other
number exactly if it is not found, or stands for null. -/
theorem agrees_iff (scope : Scope) (default : Expr → Traced Value) (exprs : List (Expr × Expr))
    (trace after : List Invocation) (pairs : List (Value × Value)) (k : Value)
    (h : Evaluation.evaluateWith scope default (.map exprs) trace = .ok (.map pairs, after)) :
    Agrees pairs k ↔ ∀ n, k = .number n →
      (n.magnitude.isFinite = true → ∀ pair ∈ pairs, isKey k pair = true →
        pairs.filter (isKey k) = [pair] ∧ (sameKey pair.1 k = true ∨ pair.2 = .null)) ∧
      (n.magnitude.isFinite = false → lookup? pairs k = none ∨ lookup? pairs k = some .null) := by
  by_cases hk : ∃ n, k = .number n
  · obtain ⟨n, rfl⟩ := hk
    cases hn : n.magnitude.isFinite with
    | true =>
      rw [agrees_number_iff hn]
      constructor
      · rintro hall m ⟨⟩
        exact ⟨fun _ => hall, fun hm => Bool.noConfusion (hn.symm.trans hm)⟩
      · intro hall
        exact (hall n rfl).1 hn
    | false =>
      rw [agrees_number_not_finite_iff hn]
      constructor
      · rintro hl m ⟨⟩
        exact ⟨fun hm => Bool.noConfusion (hn.symm.trans hm), fun _ => hl⟩
      · intro hall
        exact (hall n rfl).2 hn
  · have hne (n : Number) : k ≠ .number n := fun he => hk ⟨n, he⟩
    exact iff_of_true (agrees_of_ne_number (distinct_of_evaluateWith h) hne)
      fun n he => absurd he (hne n)

theorem agrees_iff_measure :
    Evaluation.evaluateWith Literal.plainScope (fun _ => throw .endless)
        (.map [(.literal (.number ⟨.int 1, ["px"], []⟩), .literal (.string "a"))]) [] =
      .ok (.map [(.number ⟨.int 1, ["px"], []⟩, .string "a")], []) ∧
    Agrees [(.number ⟨.int 1, ["px"], []⟩, .string "a")] (.number ⟨.int 1, ["px"], []⟩) := by
  have h : Evaluation.evaluateWith Literal.plainScope (fun _ => throw .endless)
      (.map [(.literal (.number ⟨.int 1, ["px"], []⟩), .literal (.string "a"))]) [] =
        .ok (.map [(.number ⟨.int 1, ["px"], []⟩, .string "a")], []) := rfl
  have hkey : isKey (.number ⟨.int 1, ["px"], []⟩) (.number ⟨.int 1, ["px"], []⟩, .string "a") =
      true := by
    decide +kernel
  refine ⟨h, (agrees_iff _ _ _ _ _ _ _ h).mpr ?_⟩
  rintro n ⟨⟩
  refine ⟨fun _ pair hp _ => ?_, nofun⟩
  obtain rfl := List.mem_singleton.mp hp
  exact ⟨by rw [List.filter_cons_of_pos hkey]; rfl, Or.inl (by decide +kernel)⟩

/-- A key whose units stand in another order is equal and is not found. -/
theorem not_agrees :
    evaluateSource "(1px * 1s: a)" [] =
        .ok (.map [(.number ⟨.int 1, ["px", "s"], []⟩, .string "a")]) ∧
      evaluateSource "1s * 1px" [] = .ok (.number ⟨.int 1, ["s", "px"], []⟩) ∧
      ¬ Agrees [(.number ⟨.int 1, ["px", "s"], []⟩, .string "a")]
        (.number ⟨.int 1, ["s", "px"], []⟩) := by
  have hmap : Source.readExpr "(1px * 1s: a)" = .ok (.map
      [(.binary .mul (.literal (.number ⟨.int 1, ["px"], []⟩))
        (.literal (.number ⟨.int 1, ["s"], []⟩)), .literal (.string "a"))]) := rfl
  have hkey : Source.readExpr "1s * 1px" = .ok (.binary .mul
      (.literal (.number ⟨.int 1, ["s"], []⟩)) (.literal (.number ⟨.int 1, ["px"], []⟩))) := rfl
  refine ⟨Literal.evaluateSource_eq_ok_iff.mpr ⟨_, [], hmap, rfl⟩,
    Literal.evaluateSource_eq_ok_iff.mpr ⟨_, [], hkey, rfl⟩, ?_⟩
  rintro ⟨hfound, -⟩
  have hequal : isKey (.number ⟨.int 1, ["s", "px"], []⟩)
      (.number ⟨.int 1, ["px", "s"], []⟩, .string "a") = true := by
    decide +kernel
  have hother : sameKey (.number ⟨.int 1, ["px", "s"], []⟩) (.number ⟨.int 1, ["s", "px"], []⟩) =
      false := by
    decide +kernel
  have hget := (hfound _ List.mem_cons_self hequal).2
  rw [mapGet_of_filter (List.filter_cons_of_neg (Bool.eq_false_iff.mp hother))] at hget
  cases hget

end Value

end SassData
