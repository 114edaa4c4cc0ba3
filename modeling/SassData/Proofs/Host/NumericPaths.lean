import SassData.Host.Path
import SassData.Proofs.Evaluation.NamedValues
import SassData.Proofs.Number.IntegerRemainders
import SassData.Proofs.Source.LexedTexts

/-!
# Numbers on a path

An integer and the floating-point number equal to it find the same items of a sequence and the same
entries of a dictionary. They differ in their texts, which a dictionary is asked for when it has no
such number and other data is asked for at once.
-/

namespace SassData

set_option autoImplicit false

open Number (Magnitude Binary64)

variable {n : Int} {x : Binary64}

/-! ## Numbers as keys -/

namespace Number

theorem Binary64.IsInteger.point_eq (hx : x.IsInteger n) :
    (Magnitude.float x).point = (Magnitude.int n).point := by
  obtain ⟨s, u, hu, rfl⟩ := Binary64.eq_finite hx.finite
  exact congrArg Point.units hx.units

theorem Magnitude.same_congr {a b : Magnitude} (h : a.point = b.point) (c : Magnitude) :
    a.same c = b.same c ∧ c.same a = c.same b := by
  constructor
  · rw [Bool.eq_iff_iff, same_iff, same_iff, h]
  · rw [Bool.eq_iff_iff, same_iff, same_iff, h]

end Number

namespace Host

theorem same_number (hx : x.IsInteger n) (key : Host) :
    key.same (.number (.float x)) = key.same (.number (.int n)) := by
  have hsame := Magnitude.same_congr hx.point_eq
  cases key with
  | bool b =>
    simp only [same, magnitude?, Option.any_some]
    exact (hsame (.int (if b then 1 else 0))).1
  | number m =>
    simp only [same, magnitude?, Option.any_some]
    exact (hsame m).2
  | fraction num den =>
    simp only [same, isFraction, magnitude?, hx.finite, hx.units, Bool.true_and]
    rw [Bool.eq_iff_iff, beq_iff_eq, beq_iff_eq, Int.mul_right_comm, Magnitude.eq_iff_of_units]
  | _ => simp only [same]

theorem itemUnder?_number (hx : x.IsInteger n) (entries : List (Host × Host)) :
    itemUnder? entries (.number (.float x)) = itemUnder? entries (.number (.int n)) := by
  simp only [itemUnder?, same_number hx]

theorem place?_number (hx : x.IsInteger n) : (Host.number (.float x)).place? = some n := by
  obtain ⟨s, u, hu, rfl⟩ := Binary64.eq_finite hx.finite
  have hpos : (Number.unitsInOne : Int) ≠ 0 :=
    Int.natCast_ne_zero.mpr (Nat.ne_of_gt (Number.twoPow_pos 1074))
  have hwhole : (Binary64.finite s u hu).isWhole = true := by
    rw [Binary64.isWhole, (Binary64.isInteger_finite_iff.mp hx).1, beq_iff_eq, Nat.mul_mod_left]
  rw [place?, if_pos hwhole, Binary64.floor?, hx.units, Int.mul_fdiv_cancel n hpos]

/-! ## Texts of numbers -/

def isLettered (name : String) : Bool := name.toList.head?.any Char.isAlpha

theorem isLettered_of_toList {name : String} {c : Char} {rest : List Char}
    (h : name.toList = c :: rest) : isLettered name = c.isAlpha := by
  rw [isLettered, h]
  rfl

theorem exists_toString_cons (k : Nat) :
    ∃ d rest, (toString k).toList = d :: rest ∧ d.isAlpha = false := by
  obtain ⟨d, rest, hd, hdigits⟩ := Source.exists_toDigits_cons k
  have hdigit : ∀ d < 10, (Nat.digitChar d).isAlpha = false := by decide
  exact ⟨_, rest, by simpa using hdigits, hdigit d hd⟩

theorem isLettered_minus (text : String) : isLettered ("-" ++ text) = false := by
  rw [isLettered, String.toList_append]
  rfl

theorem isLettered_toString (n : Int) : isLettered (toString n) = false := by
  rw [Int.toString_eq_repr, Int.repr_eq_if]
  split
  · obtain ⟨d, rest, hchars, hd⟩ := exists_toString_cons n.toNat
    exact (isLettered_of_toList hchars).trans hd
  · exact isLettered_minus _

theorem isLettered_numeral (d : Number.Numeral) : isLettered d.text = false := by
  obtain ⟨c, rest, hchars, hc⟩ := exists_toString_cons d.digits
  simp only [Number.Numeral.text, hchars]
  split
  · split
    · exact (isLettered_of_toList String.toList_ofList).trans hc
    · split
      · exact isLettered_of_toList String.toList_ofList
      -- The point may stand in front of all digits; it is no letter either.
      · cases (d.exponent + ((c :: rest).length : Int) - 1 + 1).natAbs with
        | zero => exact isLettered_of_toList String.toList_ofList
        | succ k => exact (isLettered_of_toList String.toList_ofList).trans hc
  · rw [String.append_assoc, isLettered, String.toList_append, String.toList_ofList]
    exact hc

theorem isLettered_text (hx : x.isFinite = true) : isLettered (x.text spelling) = false := by
  obtain ⟨s, u, hu, rfl⟩ := Binary64.eq_finite hx
  have hunsigned : isLettered (if (u == 0) = true then "0.0"
      else (Number.trimZeros 17 (Number.shortest u)).text) = false := by
    split
    · decide
    · exact isLettered_numeral _
  cases s with
  | true => exact isLettered_minus _
  | false => rwa [Binary64.text, if_neg Bool.false_ne_true, String.empty_append]

/-! ## What data finds -/

def numbered? (h : Host) (n : Int) : Option Host :=
  match h with
  | dict entries => itemUnder? entries (.number (.int n))
  | list items | tuple items => itemAt? items n
  | measured m => itemAt? (measuredItems m) n
  | _ => none

/-- What data has under a name that is no attribute's. -/
def named? (h : Host) (name : String) : Option Host :=
  match h with
  | dict entries => itemUnder? entries (.text name)
  | record fields => Named.get? fields name
  | _ => none

theorem isLettered_ofValue (v : Value) :
    ((valueAttributes v).map Prod.fst ++ valueOperations v).all isLettered = true := by
  cases v with
  | _ =>
    simp only [valueAttributes, valueOperations, commonAttributes, numberAttributes,
      colorAttributes, Color.channels, stringAttributes, mapAttributes, List.map_cons, List.map_nil,
      List.cons_append, List.nil_append]
    decide

theorem isLettered_name {h : Host} (hr : ∀ fields, h ≠ .record fields) :
    (h.attributes.map Prod.fst ++ h.operations).all isLettered = true := by
  cases h with
  | value v => exact isLettered_ofValue v
  | record fields => exact absurd rfl (hr fields)
  | number m =>
    cases m with
    | _ =>
      simp only [attributes, operations, integerAttributes, List.map_cons, List.map_nil]
      decide
  | _ =>
    simp only [attributes, operations, integerAttributes, List.map_cons, List.map_nil]
    decide

variable {name : String}

theorem attribute?_of_not_lettered (hname : isLettered name = false) {h : Host}
    (hr : ∀ fields, h ≠ .record fields) : h.attribute? name = .ok none := by
  have hnot : name ∉ h.attributes.map Prod.fst ++ h.operations := by
    intro hm
    rw [List.all_eq_true.mp (isLettered_name hr) name hm] at hname
    cases hname
  rw [List.mem_append, not_or] at hnot
  rw [attribute?, Named.get?_eq_none_iff.mpr hnot.1, if_neg hnot.2]

theorem get?_map_ok (fields : List (String × Host)) (name : String) :
    Named.get? (fields.map fun (name, h) => (name, (.ok h : Outcome Host))) name =
      (Named.get? fields name).map .ok := by
  induction fields with
  | nil => rfl
  | cons field rest ih =>
    rw [List.map_cons, Named.get?, Named.get?]
    split
    · rfl
    · exact ih

theorem attribute?_record (fields : List (String × Host)) (name : String) :
    (Host.record fields).attribute? name = .ok (Named.get? fields name) := by
  rw [attribute?, attributes, get?_map_ok]
  cases Named.get? fields name <;> rfl

def taken? (h key : Host) : Option Host :=
  match h.step key with
  | .ok (.ok item) => some item
  | _ => none

theorem taken?_dict {key : Host} (hkey : key.isHashable = true) (entries : List (Host × Host)) :
    (Host.dict entries).taken? key =
      (itemUnder? entries key).or (itemUnder? entries (.text key.plainText)) := by
  rw [taken?, step, stepInDict, hkey]
  cases itemUnder? entries key with
  | some item => rfl
  | none => cases itemUnder? entries (.text key.plainText) <;> rfl

theorem taken?_sequence {h key : Host} {items : List Host}
    (hstep : h.step key = .ok (stepInSequence items key)) (hkey : key.place? = some n) :
    h.taken? key = itemAt? items n := by
  rw [taken?, hstep, stepInSequence, hkey]
  dsimp only
  cases itemAt? items n <;> rfl

theorem taken?_of_attribute {h key : Host} {found : Option Host}
    (hstep : h.step key = h.stepToAttribute key) (hh : h.attribute? key.plainText = .ok found) :
    h.taken? key = found := by
  rw [taken?, hstep, stepToAttribute, hh]
  cases found <;> rfl

/-- A number leads to what is under it, and else to what is under its text. -/
theorem taken?_number {m : Magnitude} (hplace : (Host.number m).place? = some n)
    (hfind : ∀ entries, itemUnder? entries (.number m) = itemUnder? entries (.number (.int n)))
    (htext : isLettered (magnitudeText m) = false) (h : Host) :
    h.taken? (.number m) = (h.numbered? n).or (h.named? (magnitudeText m)) := by
  cases h with
  | dict entries =>
    rw [taken?_dict rfl, hfind]
    rfl
  | list | tuple | measured =>
    rw [taken?_sequence rfl hplace]
    exact Option.or_none.symm
  | record fields => exact taken?_of_attribute rfl (attribute?_record fields _)
  | _ => exact taken?_of_attribute rfl (attribute?_of_not_lettered htext nofun)

theorem taken?_int (n : Int) (h : Host) :
    h.taken? (.number (.int n)) = (h.numbered? n).or (h.named? (toString n)) :=
  taken?_number rfl (fun _ => rfl) (isLettered_toString n) h

theorem taken?_float (hx : x.IsInteger n) (h : Host) :
    h.taken? (.number (.float x)) = (h.numbered? n).or (h.named? (x.text spelling)) :=
  taken?_number (place?_number hx) (itemUnder?_number hx) (isLettered_text hx.finite) h

/-! ## How a path ends -/

/-- What a path leads to, or the position of the step that cannot be taken. -/
def ending : Host → List Host → Except Nat Host
  | h, [] => .ok h
  | h, key :: rest =>
    match h.taken? key with
    | some item => (ending item rest).mapError (· + 1)
    | none => .error 0

theorem mapError_eq_ok_iff {e : Except Nat Host} {f : Nat → Nat} {item : Host} :
    e.mapError f = .ok item ↔ e = .ok item := by
  cases e with
  | error i => exact iff_of_false nofun nofun
  | ok a => exact Iff.rfl

theorem mapError_succ_injective {e e' : Except Nat Host} :
    e.mapError (· + 1) = e'.mapError (· + 1) ↔ e = e' := by
  cases e with
  | error i =>
    cases e' with
    | error j =>
      refine ⟨fun h => ?_, congrArg _⟩
      rw [Nat.succ.inj (Except.error.inj h)]
    | ok b => exact iff_of_false nofun nofun
  | ok a =>
    cases e' with
    | error j => exact iff_of_false nofun nofun
    | ok b => exact Iff.rfl

variable {h part : Host} {path : List Host}

theorem ending_cons_of_some {key item : Host} (hk : h.taken? key = some item) (rest : List Host) :
    h.ending (key :: rest) = (item.ending rest).mapError (· + 1) := by
  rw [ending, hk]

theorem ending_cons_of_none {key : Host} (hk : h.taken? key = none) (rest : List Host) :
    h.ending (key :: rest) = .error 0 := by
  rw [ending, hk]

theorem step_of_taken? {key item : Host} (hk : h.taken? key = some item) :
    h.step key = .ok (.ok item) := by
  unfold taken? at hk
  split at hk
  · next hs =>
    cases hk
    exact hs
  · cases hk

theorem followFrom_cons_of_some {key item : Host} (hk : h.taken? key = some item)
    (whole : List String) (rest : List Host) :
    followFrom whole h (key :: rest) = followFrom whole item rest := by
  rw [followFrom, step_of_taken? hk]
  rfl

theorem followFrom_cons_of_none {key : Host} (hk : h.taken? key = none) (whole : List String)
    (rest : List Host) :
    (∃ fault, followFrom whole h (key :: rest) =
      .error (.unresolvedPath whole key.display (some fault))) ∨
    ∃ failure, h.step key = .error failure ∧
      followFrom whole h (key :: rest) = .error failure := by
  rw [followFrom]
  cases hs : h.step key with
  | error failure => exact Or.inr ⟨failure, rfl, rfl⟩
  | ok result =>
    cases result with
    | error fault => exact Or.inl ⟨fault, rfl⟩
    | ok item =>
      rw [taken?, hs] at hk
      cases hk

theorem followFrom_eq_ok_iff (whole : List String) :
    followFrom whole h path = .ok part ↔ h.ending path = .ok part := by
  induction path generalizing h with
  | nil => exact ⟨fun hf => congrArg _ (Except.ok.inj hf), fun he => congrArg _ (Except.ok.inj he)⟩
  | cons key rest ih =>
    cases hk : h.taken? key with
    | some item =>
      rw [followFrom_cons_of_some hk, ending_cons_of_some hk, ih, mapError_eq_ok_iff]
    | none =>
      rw [ending_cons_of_none hk]
      refine iff_of_false ?_ nofun
      rcases followFrom_cons_of_none hk whole rest with ⟨fault, hf⟩ | ⟨failure, -, hf⟩
      · rw [hf]
        nofun
      · rw [hf]
        nofun

theorem follow_eq_ok_iff : h.follow path = .ok part ↔ h.ending path = .ok part :=
  followFrom_eq_ok_iff _

theorem followFrom_of_ending {i : Nat} (whole : List String) (hbreak : h.ending path = .error i) :
    ∃ part key, followFrom whole h (path.take i) = .ok part ∧ path[i]? = some key ∧
      ((∃ fault, followFrom whole h path =
        .error (.unresolvedPath whole key.display (some fault))) ∨
      ∃ failure, part.step key = .error failure ∧ followFrom whole h path = .error failure) := by
  induction path generalizing h i with
  | nil => cases hbreak
  | cons key rest ih =>
    cases hk : h.taken? key with
    | none =>
      rw [ending_cons_of_none hk] at hbreak
      cases hbreak
      exact ⟨h, key, rfl, rfl, followFrom_cons_of_none hk whole rest⟩
    | some item =>
      rw [ending_cons_of_some hk] at hbreak
      cases hrest : item.ending rest with
      | ok part =>
        rw [hrest] at hbreak
        cases hbreak
      | error j =>
        rw [hrest] at hbreak
        cases hbreak
        obtain ⟨part, step, hpart, hstep, hend⟩ := ih hrest
        refine ⟨part, step, ?_, hstep, ?_⟩
        · rw [List.take_succ_cons, followFrom_cons_of_some hk, hpart]
        · rw [followFrom_cons_of_some hk]
          exact hend

/-- A path that breaks off leads up to some part, and following it reports the step that cannot be
taken from there, unless working that step out fails. -/
theorem follow_of_ending {i : Nat} (hbreak : h.ending path = .error i) :
    ∃ part key, h.follow (path.take i) = .ok part ∧ path[i]? = some key ∧
      ((∃ fault, h.follow path =
        .error (.unresolvedPath (path.map display) key.display (some fault))) ∨
      ∃ failure, part.step key = .error failure ∧ h.follow path = .error failure) := by
  obtain ⟨part, key, hpart, hkey, hend⟩ := followFrom_of_ending (path.map display) hbreak
  exact ⟨part, key, follow_eq_ok_iff.mpr ((followFrom_eq_ok_iff _).mp hpart), hkey, hend⟩

theorem mapError_succ_ne (e : Except Nat Host) : e.mapError (· + 1) ≠ .error 0 := by
  cases e with
  | error i => exact fun h => Nat.succ_ne_zero i (Except.error.inj h)
  | ok item => nofun

theorem ending_cons_eq_iff {key other : Host} {rest : List Host} :
    h.ending (key :: rest) = h.ending (other :: rest) ↔
      (h.taken? key).map (ending · rest) = (h.taken? other).map (ending · rest) := by
  rw [ending, ending]
  cases h.taken? key with
  | none =>
    cases h.taken? other with
    | none => exact iff_of_true rfl rfl
    | some b => exact iff_of_false (mapError_succ_ne _).symm nofun
  | some a =>
    cases h.taken? other with
    | none => exact iff_of_false (mapError_succ_ne _) nofun
    | some b => exact mapError_succ_injective.trans (Option.some_inj.symm)

/-! ## Integers in floating point -/

variable {before after : List Host}

/-- At the step itself the two numbers differ only in what their texts find. -/
theorem ending_cons_number_iff (hx : x.IsInteger n) (h : Host) :
    h.ending (.number (.int n) :: after) = h.ending (.number (.float x) :: after) ↔
      (h.numbered? n = none → (h.named? (toString n)).map (ending · after) =
        (h.named? (x.text spelling)).map (ending · after)) := by
  rw [ending_cons_eq_iff, taken?_int, taken?_float hx]
  cases h.numbered? n with
  | some item => exact iff_of_true rfl nofun
  | none =>
    rw [Option.none_or, Option.none_or]
    exact ⟨fun he _ => he, fun he => he rfl⟩

/-- An integer on a path may be given in floating point exactly if, where the path has led to by
then, the number is found as it is, or the two texts of it find what ends alike: the same in the
end, or nothing at the same step. -/
theorem ending_number_iff (hx : x.IsInteger n) (h : Host) (before after : List Host) :
    h.ending (before ++ .number (.int n) :: after) =
        h.ending (before ++ .number (.float x) :: after) ↔
      ∀ part, h.follow before = .ok part → part.numbered? n = none →
        (part.named? (toString n)).map (ending · after) =
          (part.named? (x.text spelling)).map (ending · after) := by
  simp only [follow_eq_ok_iff]
  induction before generalizing h with
  | nil =>
    refine (ending_cons_number_iff hx h).trans ⟨?_, fun hall => hall h rfl⟩
    rintro hend part hpart
    cases hpart
    exact hend
  | cons key rest ih =>
    rw [List.cons_append, List.cons_append]
    cases hk : h.taken? key with
    | none =>
      -- Both paths break off before the number.
      rw [ending_cons_of_none hk, ending_cons_of_none hk, ending_cons_of_none hk]
      exact iff_of_true rfl nofun
    | some item =>
      simp only [ending_cons_of_some hk, mapError_succ_injective, mapError_eq_ok_iff]
      exact ih item

/-- An integer key, asked for in floating point. -/
theorem ending_number_iff_key :
    Binary64.IsInteger 2 2 ∧
      ending (.tuple [.dict [(.number (.int 2), .text "b")]])
          [.number (.int 0), .number (.int 2), .number (.int 0)] =
        ending (.tuple [.dict [(.number (.int 2), .text "b")]])
          [.number (.int 0), .number (.float 2), .number (.int 0)] := by
  have hx : Binary64.IsInteger 2 2 := @Binary64.isInteger_ofInt 2 (by decide)
  refine ⟨hx, (ending_number_iff hx _ [.number (.int 0)] [.number (.int 0)]).mpr ?_⟩
  intro part hpart hnone
  cases hpart
  have hkey : (Host.number (.int 2)).same (.number (.int 2)) = true := by
    simp only [same, magnitude?, Option.any_some]
    exact beq_self_eq_true (2 : Int)
  have hfound : (Host.dict [(.number (.int 2), .text "b")]).numbered? 2 = some (.text "b") := by
    simp only [numbered?, itemUnder?, List.find?_cons, hkey, Option.map_some]
  rw [hfound] at hnone
  cases hnone

/-- A text that an integer has and the floating-point number equal to it has not. -/
theorem not_ending_number :
    ¬ ∀ (h : Host) (before after : List Host) (n : Int) (x : Binary64),
      n.natAbs < 2 ^ 53 → x.IsInteger n →
        h.ending (before ++ .number (.int n) :: after) =
          h.ending (before ++ .number (.float x) :: after) := by
  intro hall
  have hx : Binary64.IsInteger 0 0 := @Binary64.isInteger_ofInt 0 (by decide)
  have hend := hall (.dict [(.text "0", .text "zero")]) [] [] 0 0 (by decide) hx
  have hint : toString (0 : Int) = "0" := rfl
  have hfloat : (0 : Binary64).text spelling = "0.0" := by decide +kernel
  have hnumber : (Host.dict [(.text "0", .text "zero")]).numbered? 0 = none := by
    simp [numbered?, itemUnder?, same]
  have hnames : (Host.dict [(.text "0", .text "zero")]).named? "0" = some (.text "zero") ∧
      (Host.dict [(.text "0", .text "zero")]).named? "0.0" = none := by
    constructor <;> simp [named?, itemUnder?, same]
  have hsame := (ending_cons_number_iff hx _).mp hend hnumber
  rw [hint, hfloat, hnames.1, hnames.2] at hsame
  cases hsame

end Host

end SassData
