import SassData.Proofs.Evaluation.ValueInvariants
import SassData.Proofs.Host.PrintedData
import SassData.Proofs.Value.MapKeys
import SassData.Proofs.Value.ValueTextReading

/-!
# What the text of a value evaluates to

The text of a value evaluates to the value unless it says something else: in a space list a minus
behind an item takes away from that item, and two keys whose marks enclose one text are one key.
These are the only ways in which a text that is read as its value's expression has another value.
-/

namespace SassData.Value

set_option autoImplicit false

open Source (Next gathered inRow)
open Evaluation (evaluateWith evaluateItems evaluatePairs hasKey)

def isNegative : Value → Bool
  | number ⟨.int k, _, _⟩ => k < 0
  | _ => false

mutual

/-- In space lists only the first item is negative, and no key of a map is met again. -/
def IsReadable : Value → Prop
  | list items separator _ =>
    (separator = .space → ∀ item ∈ items.tail, item.isNegative = false) ∧ AllReadable items
  | map pairs =>
    (pairs.map Prod.fst).Pairwise (fun k l => sameKey l k = false) ∧ PairsReadable pairs
  | _ => True

def AllReadable : List Value → Prop
  | [] => True
  | v :: rest => v.IsReadable ∧ AllReadable rest

def PairsReadable : List (Value × Value) → Prop
  | [] => True
  | (key, v) :: rest => key.IsReadable ∧ v.IsReadable ∧ PairsReadable rest

end

/-! ## Keys -/

theorem not_lt_of_le {m n : Int} (h : m ≤ n) {x : Number.Binary64}
    (hm : (Number.Magnitude.int m).lt (.float x) = false) :
    (Number.Magnitude.int n).lt (.float x) = false := by
  cases x with
  | finite s u hu =>
    have hunits := Int.mul_le_mul_of_nonneg_right h (Int.natCast_nonneg Number.unitsInOne)
    simp only [Number.Magnitude.lt, decide_eq_false_iff_not, Int.not_lt] at hm ⊢
    omega
  | _ => exact hm

theorem close_int (j k : Int) : (Number.Magnitude.int j).close (.int k) = .ok (j == k) := by
  have hlt : (Number.Magnitude.int (j - k)).abs.lt .tolerance = (j == k) := by
    cases he : j == k with
    | true =>
      obtain rfl := eq_of_beq he
      rw [Int.sub_self]
      decide +kernel
    | false =>
      -- Integers that differ are at least one apart, which is more than the tolerance.
      have hone : (Number.Magnitude.int 1).lt .tolerance = false := by decide +kernel
      have hne := ne_of_beq_false he
      exact not_lt_of_le (by omega) hone
  exact congrArg Except.ok hlt

theorem equals_of_isShown {a b : Value} (ha : a.IsShown) (hb : b.IsShown) :
    a.equals b = .ok (sameKey a b) := by
  cases b with
  | number n =>
    cases a with
    | number m =>
      obtain ⟨j, rfl⟩ := ha
      obtain ⟨k, rfl⟩ := hb
      have hclose : (number (.ofInt j)).equals (number (.ofInt k)) =
          Outcome.ofArithmetic ((Number.Magnitude.int j).close (.int k)) := rfl
      rw [hclose, close_int]
      simp [Outcome.ofArithmetic, sameKey, same, Number.ofInt, Number.ofMagnitude,
        Number.Magnitude.same, Number.Magnitude.eq]
    | _ => rfl
  | _ =>
    refine equals_eq_sameKey fun n h => ?_
    cases h

theorem hasKey_eq_ok_iff {key : Value} (hk : key.IsShown) {before : List (Value × Value)}
    (hb : ∀ pair ∈ before, pair.1.IsShown) :
    hasKey key before = .ok false ↔ ∀ pair ∈ before, sameKey key pair.1 = false := by
  induction before with
  | nil => exact iff_of_true rfl (List.forall_mem_nil _)
  | cons pair rest ih =>
    obtain ⟨hpair, hrest⟩ := List.forall_mem_cons.mp hb
    rw [hasKey, equals_of_isShown hk hpair, List.forall_mem_cons, ← ih hrest]
    cases sameKey key pair.1 with
    | false => exact (and_iff_right rfl).symm
    | true =>
      refine iff_of_false (fun h => ?_) fun h => ?_
      · cases h
      · cases h.1

/-! ## Rows -/

theorem nextOf_of_not_negative {v : Value} (h : v.isNegative = false) (e : Expr) :
    nextOf v e = .item e := by
  unfold nextOf
  split
  · rw [if_neg (of_decide_eq_false h)]
  · rfl

theorem exists_nextOf_less {v : Value} (h : v.isNegative = true) (e : Expr) :
    ∃ n, nextOf v e = .less n := by
  unfold isNegative at h
  split at h
  · exact ⟨_, if_pos (of_decide_eq_true h)⟩
  · cases h

theorem nexts_cons (v : Value) (rest : List Value) :
    nexts (v :: rest) = nextOf v v.reading :: nexts rest := rfl

theorem exists_less {items : List Value} (h : ¬ ∀ item ∈ items, item.isNegative = false) :
    ∃ n, Next.less n ∈ nexts items := by
  induction items with
  | nil => exact absurd (List.forall_mem_nil _) h
  | cons v rest ih =>
    rw [nexts_cons]
    cases hv : v.isNegative with
    | true =>
      obtain ⟨n, hn⟩ := exists_nextOf_less hv v.reading
      rw [hn]
      exact ⟨n, List.mem_cons_self⟩
    | false =>
      rw [List.forall_mem_cons, hv, eq_self, true_and] at h
      obtain ⟨n, hn⟩ := ih h
      exact ⟨n, List.mem_cons_of_mem _ hn⟩

theorem nexts_of_not_negative {items : List Value}
    (h : ∀ item ∈ items, item.isNegative = false) : nexts items = (readings items).map .item := by
  induction items with
  | nil => rfl
  | cons v rest ih =>
    obtain ⟨hv, hrest⟩ := List.forall_mem_cons.mp h
    rw [nexts_cons, nextOf_of_not_negative hv, ih hrest, readings, List.map_cons]

theorem length_readings (items : List Value) : (readings items).length = items.length := by
  induction items with
  | nil => rfl
  | cons v rest ih => exact congrArg (· + 1) ih

theorem length_nexts (items : List Value) : (nexts items).length = items.length := by
  rw [nexts, List.length_zipWith, length_readings, Nat.min_self]

theorem reading_row (v : Value) (rest : List Value) (bracketed : Bool) :
    reading (list (v :: rest) .space bracketed) =
      let row := inRow (gathered v.reading (nexts rest))
      if bracketed then Source.Reading.inBrackets row else row := rfl

/-- The expression of a list, unless something is taken away in it. -/
theorem reading_list {items : List Value} {separator : Separator} {bracketed : Bool}
    (hform : HasForm separator bracketed items.length)
    (h : separator = .space → ∀ item ∈ items.tail, item.isNegative = false) :
    reading (list items separator bracketed) = .list (readings items) separator bracketed := by
  match separator, items, hform with
  | .comma, _ :: _, _ => rfl
  | .undecided, [_], _ => rfl
  | .space, v :: w :: rest, _ =>
    have hrest : ∀ item ∈ w :: rest, item.isNegative = false := h rfl
    rw [reading_row, nexts_of_not_negative hrest, Source.gathered_items]
    cases bracketed <;> rfl

/-! ## Evaluation -/

section

variable (scope : Scope) (default : Expr → Traced Value)

mutual

theorem evaluateWith_reading (v : Value) (hs : v.IsShown) (hr : v.IsReadable) :
    evaluateWith scope default v.reading = pure v := by
  match v with
  | null | bool _ | string _ => simp [reading, evaluateWith]
  | number n =>
    obtain ⟨k, rfl⟩ := hs
    exact evaluateWith_integerExpr scope default k
  | list items separator bracketed =>
    rw [reading_list hs.1 hr.1]
    simp [evaluateWith, evaluateItems_readings items hs.2 hr.2]
  | map pairs =>
    have hpairs := evaluatePairs_pairReadings pairs hs.2.2 hr.2 [] nofun hr.1
    simp [reading, evaluateWith, hpairs]
  | color _ => exact hs.elim
  | custom .. => exact hs.elim

theorem evaluateItems_readings (items : List Value) (hs : AllShown items)
    (hr : AllReadable items) : evaluateItems scope default (readings items) = pure items := by
  match items with
  | [] => rfl
  | v :: rest =>
    simp [readings, evaluateItems, evaluateWith_reading v hs.1 hr.1,
      evaluateItems_readings rest hs.2 hr.2]

theorem evaluatePairs_pairReadings (pairs : List (Value × Value)) (hs : PairsShown pairs)
    (hr : PairsReadable pairs) (before : List (Value × Value))
    (hb : ∀ pair ∈ before, pair.1.IsShown)
    (hn : ((before ++ pairs).map Prod.fst).Pairwise (fun k l => sameKey l k = false)) :
    evaluatePairs scope default before (pairReadings pairs) = pure (before ++ pairs) := by
  match pairs with
  | [] => simp [pairReadings, evaluatePairs]
  | (key, v) :: rest =>
    have hk : hasKey key before = .ok false := by
      rw [hasKey_eq_ok_iff hs.1 hb]
      intro pair hp
      rw [List.map_append, List.pairwise_append] at hn
      exact hn.2.2 pair.1 (List.mem_map_of_mem hp) key List.mem_cons_self
    have hb' : ∀ pair ∈ before ++ [(key, v)], pair.1.IsShown :=
      List.forall_mem_append.mpr ⟨hb, List.forall_mem_singleton.mpr hs.1⟩
    have hrest := evaluatePairs_pairReadings rest hs.2.2 hr.2.2 (before ++ [(key, v)]) hb'
      (by simpa using hn)
    simp [pairReadings, evaluatePairs, evaluateWith_reading key hs.1 hr.1, hk,
      evaluateWith_reading v hs.2.1 hr.2.1, hrest]
    rfl

end

variable {scope default} {trace after : List Invocation}

theorem length_of_evaluateItems {es : List Expr} {vs : List Value}
    (h : evaluateItems scope default es trace = .ok (vs, after)) : vs.length = es.length := by
  induction es generalizing trace vs with
  | nil =>
    cases h
    rfl
  | cons e rest ih =>
    rw [evaluateItems] at h
    obtain ⟨v, middle, -, h⟩ := Traced.bind_eq_ok_iff.mp h
    obtain ⟨ws, last, hrest, h⟩ := Traced.bind_eq_ok_iff.mp h
    cases h
    exact congrArg (· + 1) (ih hrest)

theorem length_of_sameItems {xs ys : List Value} (h : sameItems xs ys = true) :
    xs.length = ys.length := by
  induction xs generalizing ys with
  | nil =>
    cases ys with
    | nil => rfl
    | cons => cases h
  | cons x xs ih =>
    cases ys with
    | nil => cases h
    | cons y ys => exact congrArg (· + 1) (ih ((Bool.and_eq_true _ _).mp h).2)

theorem not_same_of_length_lt {es : List Expr} {items : List Value} {inner outer : Separator}
    {b c : Bool} {w : Value}
    (h : evaluateWith scope default (.list es inner b) trace = .ok (w, after))
    (hl : es.length < items.length) : w.same (list items outer c) ≠ true := by
  rw [evaluateWith] at h
  obtain ⟨ws, middle, hitems, h⟩ := Traced.bind_eq_ok_iff.mp h
  cases h
  intro hsame
  have hlength := length_of_sameItems ((Bool.and_eq_true _ _).mp hsame).1
  rw [length_of_evaluateItems hitems] at hlength
  omega

theorem not_same_of_apply_sub {x y w : Value} {items : List Value} {separator : Separator}
    {b : Bool} (h : Operation.apply .sub x y = .ok w) : w.same (list items separator b) ≠ true := by
  unfold Operation.apply at h
  split at h
  · contradiction
  · contradiction
  · next m n _ _ =>
    have hnumber : (Value.number <$> m.minus n).Ensures
        fun w => w.same (list items separator b) ≠ true :=
      Outcome.ensures_map fun _ _ => nofun
    exact hnumber w h
  · cases h
    nofun

theorem not_same_of_sub {left right : Expr} {items : List Value} {separator : Separator} {b : Bool}
    {w : Value} (h : evaluateWith scope default (.binary .sub left right) trace = .ok (w, after)) :
    w.same (list items separator b) ≠ true := by
  rw [evaluateWith] at h
  · obtain ⟨x, middle, -, h⟩ := Traced.bind_eq_ok_iff.mp h
    obtain ⟨y, last, -, h⟩ := Traced.bind_eq_ok_iff.mp h
    exact not_same_of_apply_sub (Traced.lift_eq_ok_iff.mp h).1
  all_goals nofun

theorem not_same_of_less {v : Value} {rest : List Value} {bracketed : Bool} {w : Value}
    (h : evaluateWith scope default (reading (list (v :: rest) .space bracketed)) trace =
      .ok (w, after)) {n : Number} (hn : .less n ∈ nexts rest) :
    w.same (list (v :: rest) .space bracketed) ≠ true := by
  have hlength : (gathered v.reading (nexts rest)).length < (v :: rest).length := by
    rw [List.length_cons, ← length_nexts rest]
    exact Source.length_gathered_lt hn
  rw [reading_row] at h
  -- A single item is a difference; in brackets it is the item of a list, which is too short.
  by_cases hone : (gathered v.reading (nexts rest)).length = 1
  · obtain ⟨e, he⟩ := List.length_eq_one_iff.mp hone
    rcases Source.gathered_eq_singleton he with ⟨hnil, -⟩ | ⟨left, right, rfl⟩
    · rw [hnil] at hn
      cases hn
    · rw [he] at h
      cases bracketed with
      | false => exact not_same_of_sub h
      | true => exact not_same_of_length_lt h (by rwa [he] at hlength)
  · rw [Source.inRow_eq_list hone] at h
    cases bracketed with
    | false => exact not_same_of_length_lt h hlength
    | true => exact not_same_of_length_lt h hlength

theorem exists_of_evaluatePairs {before m : List (Value × Value)} {pairs : List (Expr × Expr)}
    (h : evaluatePairs scope default before pairs trace = .ok (m, after)) :
    ∃ more, m = before ++ more := by
  induction pairs generalizing before trace with
  | nil =>
    cases h
    exact ⟨[], (List.append_nil _).symm⟩
  | cons pair rest ih =>
    obtain ⟨k, v, middle, last, -, -, -, hrest⟩ := Evaluation.exists_of_evaluatePairs_cons h
    obtain ⟨more, rfl⟩ := ih hrest
    exact ⟨(k, v) :: more, List.append_assoc _ _ _⟩

mutual

/-- If the expression of a value has the same value, the value is one that can be read. -/
theorem isReadable_of_same (v : Value) (hs : v.IsShown) {trace after : List Invocation} {w : Value}
    (h : evaluateWith scope default v.reading trace = .ok (w, after)) (hw : w.same v = true) :
    v.IsReadable := by
  match v with
  | null | bool _ | number _ | string _ => trivial
  | list items separator bracketed =>
    by_cases hn : separator = .space → ∀ item ∈ items.tail, item.isNegative = false
    · rw [reading_list hs.1 hn, evaluateWith] at h
      obtain ⟨ws, middle, hitems, h⟩ := Traced.bind_eq_ok_iff.mp h
      cases h
      have hsame := ((Bool.and_eq_true _ _).mp hw).1
      exact ⟨hn, allReadable_of_same items hs.2 hitems hsame⟩
    · obtain ⟨rfl, hnegative⟩ := Classical.not_imp.mp hn
      cases items with
      | nil => exact absurd nofun hnegative
      | cons v rest =>
        obtain ⟨n, hless⟩ := exists_less hnegative
        exact absurd hw (not_same_of_less h hless)
  | map pairs =>
    rw [reading, evaluateWith] at h
    obtain ⟨ws, middle, hpairs, h⟩ := Traced.bind_eq_ok_iff.mp h
    cases h
    have hb : ∀ pair ∈ ([] : List (Value × Value)), pair.1.IsShown := nofun
    obtain ⟨hreadable, hdistinct, -⟩ := pairsReadable_of_same pairs hs.2.2 hb hpairs hw
    exact ⟨hdistinct, hreadable⟩
  | color _ => exact hs.elim
  | custom .. => exact hs.elim

theorem allReadable_of_same (items : List Value) (hs : AllShown items)
    {trace after : List Invocation} {ws : List Value}
    (h : evaluateItems scope default (readings items) trace = .ok (ws, after))
    (hw : sameItems ws items = true) : AllReadable items := by
  match items with
  | [] => trivial
  | v :: rest =>
    rw [readings, evaluateItems] at h
    obtain ⟨u, middle, hv, h⟩ := Traced.bind_eq_ok_iff.mp h
    obtain ⟨us, last, hrest, h⟩ := Traced.bind_eq_ok_iff.mp h
    cases h
    obtain ⟨hu, hus⟩ := (Bool.and_eq_true _ _).mp hw
    exact ⟨isReadable_of_same v hs.1 hv hu, allReadable_of_same rest hs.2 hrest hus⟩

/-- If the pairs added to a map are the same again, no key is one of those before it. -/
theorem pairsReadable_of_same (pairs : List (Value × Value)) (hs : PairsShown pairs)
    {trace after : List Invocation} {before more : List (Value × Value)}
    (hb : ∀ pair ∈ before, pair.1.IsShown)
    (h : evaluatePairs scope default before (pairReadings pairs) trace =
      .ok (before ++ more, after))
    (hw : samePairs more pairs = true) :
    PairsReadable pairs ∧ (pairs.map Prod.fst).Pairwise (fun k l => sameKey l k = false) ∧
      ∀ pair ∈ before, ∀ l ∈ pairs.map Prod.fst, sameKey l pair.1 = false := by
  match pairs with
  | [] => exact ⟨trivial, .nil, fun _ _ => nofun⟩
  | (key, v) :: rest =>
    obtain ⟨k, u, middle, last, hkey, hfound, hv, hrest⟩ :=
      Evaluation.exists_of_evaluatePairs_cons h
    obtain ⟨added, hadded⟩ := exists_of_evaluatePairs hrest
    rw [List.append_assoc, List.append_cancel_left_eq] at hadded
    subst hadded
    simp only [List.singleton_append, samePairs, Bool.and_eq_true] at hw
    obtain ⟨⟨hk, hu⟩, hmore⟩ := hw
    -- The key is evaluated to itself, so it is a key of the given kind for those behind it.
    have hreadable := isReadable_of_same key hs.1 hkey hk
    rw [evaluateWith_reading scope default key hs.1 hreadable] at hkey
    cases hkey
    have hb' : ∀ pair ∈ before ++ [(key, u)], pair.1.IsShown :=
      List.forall_mem_append.mpr ⟨hb, List.forall_mem_singleton.mpr hs.1⟩
    rw [← List.append_assoc] at hrest
    obtain ⟨hall, hpairwise, hdistinct⟩ := pairsReadable_of_same rest hs.2.2 hb' hrest hmore
    obtain ⟨hbefore, hown⟩ := List.forall_mem_append.mp hdistinct
    refine ⟨⟨hreadable, isReadable_of_same v hs.2.1 hv hu, hall⟩, ?_, ?_⟩
    · exact List.pairwise_cons.mpr ⟨List.forall_mem_singleton.mp hown, hpairwise⟩
    · intro pair hp
      exact List.forall_mem_cons.mpr ⟨(hasKey_eq_ok_iff hs.1 hb).mp hfound pair hp, hbefore pair hp⟩

end

end

/-! ## Texts -/

mutual

theorem same_self (v : Value) (hs : v.IsShown) : v.same v = true := by
  match v with
  | null => rfl
  | bool b => simp [same]
  | number n =>
    obtain ⟨k, rfl⟩ := hs
    simp [same, Number.ofInt, Number.ofMagnitude, Number.Magnitude.same, Number.Magnitude.eq]
  | string text => simp [same]
  | list items separator bracketed => simp [same, sameItems_self items hs.2]
  | map pairs => simp [same, samePairs_self pairs hs.2.2]
  | color _ => exact hs.elim
  | custom .. => exact hs.elim

theorem sameItems_self (items : List Value) (hs : AllShown items) :
    sameItems items items = true := by
  match items with
  | [] => rfl
  | v :: rest => simp [sameItems, same_self v hs.1, sameItems_self rest hs.2]

theorem samePairs_self (pairs : List (Value × Value)) (hs : PairsShown pairs) :
    samePairs pairs pairs = true := by
  match pairs with
  | [] => rfl
  | (key, v) :: rest =>
    simp [samePairs, same_self key hs.1, same_self v hs.2.1, samePairs_self rest hs.2.2]

end

/-- What is evaluated of the text of a value is its expression. -/
theorem exists_evaluateSource_css (v : Value) (hs : v.IsShown) (hd : v.IsDelimited) :
    ∃ scope default, ∀ w, evaluateSource v.css [] = .ok w ↔
      ∃ after, evaluateWith scope default v.reading [] = .ok (w, after) := by
  let scope : Scope := ⟨(Session.start []).functions, (Session.start []).assigned⟩
  obtain ⟨default, hdefault⟩ := exists_evaluateWith scope (Evaluation.defaultCount scope.functions)
  refine ⟨scope, default, fun w => ?_⟩
  have hsource : evaluateSource v.css [] =
      Evaluation.evaluateTo scope (Evaluation.defaultCount scope.functions) v.reading [] >>=
        fun result => pure result.1 := by
    rw [evaluateSource, readExpr_css v hs hd]
    rfl
  rw [hsource, hdefault, Outcome.bind_eq_ok_iff]
  constructor
  · rintro ⟨⟨u, after⟩, hu, hw⟩
    cases hw
    exact ⟨after, hu⟩
  · rintro ⟨after, hw⟩
    exact ⟨_, hw, rfl⟩

/-- The text of a value has the value again just when in space lists only the first item is negative
and no map has two keys whose marks enclose the same text. -/
theorem evaluateSource_css_iff (v : Value) (hs : v.IsShown) (hd : v.IsDelimited) :
    (∃ w, evaluateSource v.css [] = .ok w ∧ w.same v = true) ↔ v.IsReadable := by
  obtain ⟨scope, default, hsource⟩ := exists_evaluateSource_css v hs hd
  constructor
  · rintro ⟨w, hw, hsame⟩
    obtain ⟨after, h⟩ := (hsource w).mp hw
    exact isReadable_of_same v hs h hsame
  · intro hr
    refine ⟨v, (hsource v).mpr ⟨[], ?_⟩, same_self v hs⟩
    rw [evaluateWith_reading scope default v hs hr]
    rfl

def nestedMap : Value :=
  map [
    (list [number (.ofInt (-1)), list [number (.ofInt 2), null] .comma false] .space false,
      list [list [number (.ofInt (-3))] .comma true] .undecided true),
    (string "'a'", list [map [(bool true, string "\"a\"")]] .comma false)]

theorem evaluateSource_css_nestedMap :
    ∃ w, evaluateSource nestedMap.css [] = .ok w ∧ w.same nestedMap = true := by
  have hn (k : Int) : IsShown (number (.ofInt k)) := ⟨k, rfl⟩
  have ha : IsShown (string "'a'") := ⟨'\'', ['a', '\''], rfl, by decide, rfl⟩
  have hb : IsShown (string "\"a\"") := ⟨'"', ['a', '"'], rfl, by decide, rfl⟩
  have hkey : IsShown (list [number (.ofInt (-1)), list [number (.ofInt 2), null] .comma false]
      .space false) :=
    ⟨by decide, hn (-1), ⟨by decide, hn 2, trivial, trivial⟩, trivial⟩
  have hbracket : IsShown (list [list [number (.ofInt (-3))] .comma true] .undecided true) :=
    ⟨by decide, ⟨by decide, hn (-3), trivial⟩, trivial⟩
  have hone : IsShown (list [map [(bool true, string "\"a\"")]] .comma false) :=
    ⟨by decide, ⟨List.cons_ne_nil _ _, by decide, trivial, hb, trivial⟩, trivial⟩
  have hs : nestedMap.IsShown :=
    ⟨List.cons_ne_nil _ _, by decide, hkey, hbracket, ha, hone, trivial⟩
  have hd : nestedMap.IsDelimited :=
    ⟨rfl, ⟨nofun, trivial, ⟨nofun, trivial, trivial, trivial⟩, trivial⟩,
      ⟨by decide, ⟨nofun, trivial, trivial⟩, trivial⟩,
      rfl, trivial, ⟨nofun, ⟨rfl, trivial, trivial, trivial⟩, trivial⟩, trivial⟩
  have hr : nestedMap.IsReadable :=
    ⟨by decide, ⟨by decide, trivial, ⟨nofun, trivial, trivial, trivial⟩, trivial⟩,
      ⟨nofun, ⟨nofun, trivial, trivial⟩, trivial⟩,
      trivial, ⟨nofun, ⟨by decide, trivial, trivial, trivial⟩, trivial⟩, trivial⟩
  exact (evaluateSource_css_iff nestedMap hs hd).mpr hr

/-- The value is one of the given kind, but its text has another value or none. -/
def IsReadOtherwise (v : Value) : Prop :=
  v.IsShown ∧ ¬ ∃ w, evaluateSource v.css [] = .ok w ∧ w.same v = true

/-- A minus behind an item, two keys whose marks enclose the same text, a key that is a row, and a
list without brackets that is alone in brackets. -/
theorem css_read_otherwise :
    (list [number (.ofInt 1), number (.ofInt (-2))] .space false).IsReadOtherwise ∧
      (map [(string "'a'", null), (string "\"a\"", null)]).IsReadOtherwise ∧
      (map [(list [null, null] .comma false, null)]).IsReadOtherwise ∧
      (list [list [null, null] .space false] .undecided true).IsReadOtherwise := by
  have hn (k : Int) : IsShown (number (.ofInt k)) := ⟨k, rfl⟩
  have ha : IsShown (string "'a'") := ⟨'\'', ['a', '\''], rfl, by decide, rfl⟩
  have hb : IsShown (string "\"a\"") := ⟨'"', ['a', '"'], rfl, by decide, rfl⟩
  have hpair (separator : Separator) (h : HasForm separator false 2) :
      IsShown (list [null, null] separator false) := ⟨h, trivial, trivial, trivial⟩
  refine ⟨⟨?_, by decide +kernel⟩, ⟨?_, by decide +kernel⟩, ⟨?_, by decide +kernel⟩,
    ?_, by decide +kernel⟩
  · exact ⟨by decide, hn 1, hn (-2), trivial⟩
  · exact ⟨List.cons_ne_nil _ _, by decide, ha, trivial, hb, trivial, trivial⟩
  · exact ⟨List.cons_ne_nil _ _, by decide, hpair .comma (by decide), trivial, trivial⟩
  · exact ⟨by decide, hpair .space (by decide), trivial⟩

end SassData.Value
