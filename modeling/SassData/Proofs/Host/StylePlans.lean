import SassData.Host.ToStyle

/-!
# The plan for data

Data is a scalar, a future, a callable or has parts, and the plan for it follows that. What a call
hands back is planned like any other data: of the two kinds of callable that hand back what they are
given, neither can be met again on the way, since there would be no end of converting then.
-/

namespace SassData.Host

set_option autoImplicit false

open Relation (TransGen)

/-! ## Parts -/

/-- The parts of a list, a tuple, a dictionary or a record. Keys are not converted. -/
def parts? : Host → Option (List Host)
  | list items => some items
  | tuple items => some items
  | dict entries => some (entries.map Prod.snd)
  | record fields => some (fields.map Prod.snd)
  | _ => none

def withParts (h : Host) (items : List Host) : Host :=
  match h with
  | list _ => .list items
  | tuple _ => .tuple items
  | dict entries => .dict ((entries.map Prod.fst).zip items)
  | record fields => .record ((fields.map Prod.fst).zip items)
  | h => h

/-- Data without parts that is neither a callable nor a future. -/
def isScalar : Host → Bool
  | list _ | tuple _ | dict _ | record _ | callable _ | future _ => false
  | _ => true

def assembled (options : ToStyle) (h : Host) (values : List Value) : Value :=
  match h with
  | dict entries => .map ((entries.map fun (key, _) => keyValue options key.keyName).zip values)
  | record fields => .map ((fields.map fun (name, _) => keyValue options name).zip values)
  | _ => .list values .comma false

theorem parts?_of_isScalar {h : Host} (hs : h.isScalar = true) : h.parts? = none := by
  cases h with
  | list | tuple | dict | record | callable | future => cases hs
  | _ => rfl

theorem parts?_withParts {h : Host} {items others : List Host} (hp : h.parts? = some items)
    (hl : others.length = items.length) : (h.withParts others).parts? = some others := by
  cases h with
  | list | tuple => rfl
  | dict entries =>
    cases hp
    rw [List.length_map] at hl
    simp only [withParts, parts?]
    rw [List.map_snd_zip (by simp [hl])]
  | record fields =>
    cases hp
    rw [List.length_map] at hl
    simp only [withParts, parts?]
    rw [List.map_snd_zip (by simp [hl])]
  | _ => cases hp

theorem assembled_withParts {options : ToStyle} {h : Host} {items others : List Host}
    (hp : h.parts? = some items) (hl : others.length = items.length) :
    (h.withParts others).assembled options = h.assembled options := by
  funext values
  cases h with
  | list | tuple => rfl
  | dict entries =>
    cases hp
    rw [List.length_map] at hl
    have hkeys : ((entries.map Prod.fst).zip others).map Prod.fst = entries.map Prod.fst :=
      List.map_fst_zip (by simp [hl])
    have hnames := congrArg (List.map fun key => keyValue options key.keyName) hkeys
    rw [List.map_map, List.map_map] at hnames
    simp only [withParts, assembled]
    exact congrArg (fun names => Value.map (names.zip values)) hnames
  | record fields =>
    cases hp
    rw [List.length_map] at hl
    have hkeys : ((fields.map Prod.fst).zip others).map Prod.fst = fields.map Prod.fst :=
      List.map_fst_zip (by simp [hl])
    have hnames := congrArg (List.map fun name => keyValue options name) hkeys
    rw [List.map_map, List.map_map] at hnames
    simp only [withParts, assembled]
    exact congrArg (fun names => Value.map (names.zip values)) hnames
  | _ => cases hp

section Plans

variable {options : ToStyle} {handed other : Host → Plan Host}

theorem planItems_eq_map (items : List Host) :
    planItems options handed items = items.map (planWith options handed) := by
  induction items with
  | nil => rfl
  | cons h rest ih => rw [planItems, ih, List.map_cons]

theorem planEntries_eq_map (entries : List (Host × Host)) :
    planEntries options handed entries =
      (entries.map Prod.snd).map (planWith options handed) := by
  induction entries with
  | nil => rfl
  | cons entry rest ih =>
    rw [planEntries, ih, List.map_cons, List.map_cons]

theorem planFields_eq_map (fields : List (String × Host)) :
    planFields options handed fields =
      (fields.map Prod.snd).map (planWith options handed) := by
  induction fields with
  | nil => rfl
  | cons field rest ih =>
    rw [planFields, ih, List.map_cons, List.map_cons]

theorem planWith_of_parts {h : Host} {items : List Host} (hp : h.parts? = some items) :
    planWith options handed h = .gather (items.map (planWith options handed)) fun values =>
      .ok (.value (h.assembled options (values.map styleValue))) := by
  cases h with
  | list | tuple =>
    cases hp
    rw [planWith, planItems_eq_map, listPlan]
    rfl
  | dict entries =>
    cases hp
    rw [planWith, planEntries_eq_map, mapPlan]
    rfl
  | record fields =>
    cases hp
    rw [planWith, planFields_eq_map, mapPlan]
    rfl
  | _ => cases hp

theorem planWith_of_isScalar {h : Host} (hs : h.isScalar = true) :
    planWith options handed h = planWith options other h := by
  cases h with
  | list | tuple | dict | record | callable | future => cases hs
  | _ => simp only [planWith]

end Plans

/-! ## What is known at once -/

theorem map_styleValue (vs : List Value) : (vs.map value).map styleValue = vs := by
  rw [List.map_map]
  exact List.map_id vs

theorem prospects_cons {plan : Plan Host} {rest : List (Plan Host)} {v : Value} {vs : List Value}
    (h : plan.prospect = .value (.value v))
    (hr : Plan.prospects rest = .value (vs.map value)) :
    Plan.prospects (plan :: rest) = .value ((v :: vs).map value) := by
  rw [Plan.prospects, h, hr]
  rfl

theorem launch_of_prospect {options : ToStyle} {h : Host} {v : Value}
    (hv : (stylePlan options h).prospect = .value (.value v)) (s : Future.Store Host) :
    s.launch (toStyle options h) = (s, .now (.value v)) := by
  have hp : (toStyle options h).plan.prospect = .value (.value v) := hv
  rw [Future.Store.launch, hp]

/-! ## Data that converts -/

/-- Converting comes to an end without a failure. Futures are left aside, and callables that are
called give data that converts. -/
inductive Converts (options : ToStyle) : Host → Prop
  | scalar {h : Host} {v : Value} (hs : h.isScalar = true)
      (hv : stylePlan options h = .done (.value v)) : Converts options h
  | future (place : Nat) : Converts options (.future place)
  | compound {h : Host} {items : List Host} (hp : h.parts? = some items)
      (hi : ∀ item ∈ items, Converts options item) : Converts options h
  | left (c : Callable Host) (hc : options.callables = .leave) : Converts options (.callable c)
  | called {c : Callable Host} {arguments : List Host} {r : Host}
      (hc : options.callables = .call arguments) (hr : c.call arguments = .ok r)
      (hconverts : Converts options r) : Converts options (.callable c)

/-- Converting meets a callable that hands back what it is given. -/
inductive Meets : Host → Callable Host → Prop
  | arguments : Meets (.callable .arguments) .arguments
  | sum : Meets (.callable .sum) .sum
  | constant {r : Host} {c : Callable Host} (hm : Meets r c) : Meets (.callable (.constant r)) c
  | part {h item : Host} {items : List Host} {c : Callable Host} (hp : h.parts? = some items)
      (hi : item ∈ items) (hm : Meets item c) : Meets h c

section Handing

variable {options : ToStyle} {arguments : List Host} {handed other : Host → Plan Host}

theorem Meets.kind {h : Host} {c : Callable Host} (hm : Meets h c) : c = .arguments ∨ c = .sum := by
  induction hm with
  | arguments => exact Or.inl rfl
  | sum => exact Or.inr rfl
  | constant _ ih => exact ih
  | part _ _ _ ih => exact ih

/-- What the second callable hands back when called meets the first. -/
def HandsOn (arguments : List Host) (d c : Callable Host) : Prop :=
  ∃ r, c.call arguments = .ok r ∧ Meets r d

theorem acc_of_meets (hc : options.callables = .call arguments) {h : Host}
    (hh : Converts options h) {c : Callable Host} (hm : Meets h c) :
    Acc (HandsOn arguments) c ∧ ∃ r, c.call arguments = .ok r ∧ Converts options r := by
  induction hh generalizing c with
  | scalar hs hv =>
    cases hm with
    | arguments | sum | constant => cases hs
    | part hp =>
      rw [parts?_of_isScalar hs] at hp
      cases hp
  | future place =>
    cases hm with
    | part hp => cases hp
  | compound hp hi ih =>
    cases hm with
    | arguments | sum | constant => cases hp
    | part hq hitem hm =>
      rw [hp] at hq
      cases hq
      exact ih _ hitem hm
  | left c hl =>
    rw [hl] at hc
    cases hc
  | @called d _ r hd hr hconverts ih =>
    rw [hd] at hc
    cases hc
    have hall {b : Callable Host} (hb : HandsOn arguments b d) : Acc (HandsOn arguments) b := by
      obtain ⟨r', hr', hm'⟩ := hb
      rw [hr] at hr'
      cases hr'
      exact (ih hm').1
    cases hm with
    | arguments => exact ⟨⟨_, fun _ => hall⟩, r, hr, hconverts⟩
    | sum => exact ⟨⟨_, fun _ => hall⟩, r, hr, hconverts⟩
    | constant hm =>
      cases hr
      exact ih hm
    | part hp => cases hp

theorem not_self_of_acc {α : Type} {next : α → α → Prop} {a : α} (h : Acc next a) :
    ¬ next a a := by
  induction h with
  | intro a _ ih =>
    intro hself
    exact ih a hself hself

/-- Of two kinds of callable three in a row are a circle. -/
theorem not_handsOn_handsOn {b c d : Callable Host} (hb : b = .arguments ∨ b = .sum)
    (hc : c = .arguments ∨ c = .sum) (hd : d = .arguments ∨ d = .sum)
    (hacc : Acc (HandsOn arguments) d) (hbc : HandsOn arguments b c)
    (hcd : HandsOn arguments c d) : False := by
  have hnd := not_self_of_acc hacc.transGen
  have hnc := not_self_of_acc (hacc.inv hcd).transGen
  by_cases h : c = d
  · subst h
    exact hnd (.single hcd)
  · have hother : b = c ∨ b = d := by
      rcases hc with rfl | rfl
      · have hd' : d = .sum := hd.resolve_left fun he => h he.symm
        rcases hb with rfl | rfl
        · exact Or.inl rfl
        · exact Or.inr hd'.symm
      · have hd' : d = .arguments := hd.resolve_right fun he => h he.symm
        rcases hb with rfl | rfl
        · exact Or.inr hd'.symm
        · exact Or.inl rfl
    rcases hother with rfl | rfl
    · exact hnc (.single hbc)
    · exact hnd (.tail (.single hbc) hcd)

theorem planWith_callable (hc : options.callables = .call arguments) (c : Callable Host) :
    planWith options handed (.callable c) = planCall options handed arguments c := by
  rw [planWith, hc]

theorem planWith_congr (hc : options.callables = .call arguments) {h : Host}
    (hh : Converts options h)
    (hm : ∀ c r, Meets h c → c.call arguments = .ok r → handed r = other r) :
    planWith options handed h = planWith options other h := by
  induction hh with
  | scalar hs => exact planWith_of_isScalar hs
  | future place => simp only [planWith]
  | compound hp hi ih =>
    have hitems := List.map_congr_left fun item hitem =>
      ih item hitem fun c r hmeets => hm c r (.part hp hitem hmeets)
    rw [planWith_of_parts hp, planWith_of_parts hp, hitems]
  | left c hl =>
    rw [hl] at hc
    cases hc
  | @called c _ r hd hr _ ih =>
    rw [hd] at hc
    cases hc
    rw [planWith_callable hd, planWith_callable hd]
    cases c with
    | constant result =>
      cases hr
      rw [planCall, planCall]
      exact ih fun c r hmeets => hm c r (.constant hmeets)
    | arguments =>
      simp only [planCall, hr]
      exact hm _ r .arguments hr
    | sum =>
      simp only [planCall, hr]
      exact hm _ r .sum hr
    | failing failure => cases hr

theorem stylePlan_constant (hc : options.callables = .call arguments) (r : Host) :
    stylePlan options (.callable (.constant r)) = stylePlan options r := by
  have hplan : stylePlan options (.callable (.constant r)) =
      planCall options (planTo options 1) arguments (.constant r) := planWith_callable hc _
  rw [hplan, planCall]
  rfl

/-- Two calls that hand back what they are given are as many as an end allows. -/
theorem stylePlan_called (hc : options.callables = .call arguments) {c : Callable Host} {r : Host}
    (hr : c.call arguments = .ok r) (hh : Converts options r) :
    stylePlan options (.callable c) = stylePlan options r := by
  have hconverts := Converts.called hc hr hh
  -- What `r` meets is the other kind of callable, and what that hands back meets none.
  have hnext (hm : Meets (.callable c) c) : planTo options 1 r = planTo options 2 r := by
    obtain ⟨hacc, -⟩ := acc_of_meets hc hconverts hm
    rw [planTo, planTo]
    refine planWith_congr hc hh fun d s hd hs => ?_
    have hdc : HandsOn arguments d c := ⟨r, hr, hd⟩
    obtain ⟨-, s', hs', hconverts'⟩ := acc_of_meets hc hh hd
    rw [hs] at hs'
    cases hs'
    rw [planTo, planTo]
    refine planWith_congr hc hconverts' fun b t hb _ => ?_
    have hbd : HandsOn arguments b d := ⟨s, hs, hb⟩
    exact (not_handsOn_handsOn hb.kind hd.kind hm.kind hacc hbd hdc).elim
  have hplan : stylePlan options (.callable c) = planCall options (planTo options 1) arguments c :=
    planWith_callable hc c
  cases c with
  | constant result =>
    cases hr
    exact stylePlan_constant hc r
  | arguments =>
    rw [hplan]
    simp only [planCall, hr]
    exact hnext .arguments
  | sum =>
    rw [hplan]
    simp only [planCall, hr]
    exact hnext .sum
  | failing failure => cases hr

end Handing

theorem stylePlan_future (options : ToStyle) (place : Nat) :
    stylePlan options (.future place) = .again place := by
  simp only [stylePlan, handings, planTo, planWith]

theorem stylePlan_left {options : ToStyle} (hc : options.callables = .leave) (c : Callable Host) :
    stylePlan options (.callable c) = .done (.value .null) := by
  simp only [stylePlan, handings, planTo, planWith, hc]

theorem stylePlan_of_parts {options : ToStyle} {h : Host} {items : List Host}
    (hp : h.parts? = some items) :
    stylePlan options h = .gather (items.map (stylePlan options)) fun values =>
      .ok (.value (h.assembled options (values.map styleValue))) :=
  planWith_of_parts hp

/-! ## Data without calls -/

section Leaving

variable {options : ToStyle}

inductive Contains : Host → Host → Prop
  | self (h : Host) : Contains h h
  | part {h item other : Host} {items : List Host} (hp : h.parts? = some items)
      (hi : item ∈ items) (ho : Contains item other) : Contains h other

theorem sizeOf_lt_of_parts {h item : Host} {items : List Host} (hp : h.parts? = some items)
    (hi : item ∈ items) : sizeOf item < sizeOf h := by
  have hsnd {α : Type} [SizeOf α] {pairs : List (α × Host)} (hm : item ∈ pairs.map Prod.snd) :
      sizeOf item < sizeOf pairs := by
    obtain ⟨pair, hpair, rfl⟩ := List.mem_map.mp hm
    have hlt := List.sizeOf_lt_of_mem hpair
    have hsize : sizeOf pair = 1 + sizeOf pair.1 + sizeOf pair.2 := by cases pair; rfl
    omega
  cases h with
  | list | tuple =>
    cases hp
    have hlt := List.sizeOf_lt_of_mem hi
    simp only [list.sizeOf_spec, tuple.sizeOf_spec]
    omega
  | dict | record =>
    cases hp
    have hlt := hsnd hi
    simp only [dict.sizeOf_spec, record.sizeOf_spec]
    omega
  | _ => cases hp

theorem ofText_eq (hl : options.readLiterals = false) :
    ofText options = fun s => .ok (.string (Text.quote s options.delimiter)) := by
  funext s
  rw [ofText, hl]
  rfl

theorem ofTexts_eq (hl : options.readLiterals = false) (texts : List String) :
    ofTexts options texts =
      .ok (.list (texts.map fun s => .string (Text.quote s options.delimiter)) .comma false) := by
  have hmap : texts.mapM (ofText options) =
      .ok (texts.map fun s => .string (Text.quote s options.delimiter)) := by
    rw [ofText_eq hl]
    exact List.mapM_pure
  rw [ofTexts, hmap]
  rfl

theorem converts_of_isScalar (hl : options.readLiterals = false) {h : Host}
    (hs : h.isScalar = true)
    (hf : ∀ num den, h = .fraction num den →
      ∃ m, Number.Magnitude.quotient (.int num) (.int den) = .ok m) : Converts options h := by
  have hplan : ∃ v, stylePlan options h = .done (.value v) := by
    cases h with
    | list | tuple | dict | record | callable | future => cases hs
    | fraction num den =>
      obtain ⟨m, hm⟩ := hf num den rfl
      refine ⟨.number (.ofMagnitude m), ?_⟩
      simp only [stylePlan, handings, planTo, planWith, hm]
      rfl
    | text s =>
      refine ⟨.string (Text.quote s options.delimiter), ?_⟩
      simp only [stylePlan, handings, planTo, planWith, ofText_eq hl]
      rfl
    | measured n =>
      simp only [stylePlan, handings, planTo, planWith, ofMeasured, ofTexts_eq hl]
      exact ⟨_, rfl⟩
    | _ =>
      simp only [stylePlan, handings, planTo, planWith]
      exact ⟨_, rfl⟩
  obtain ⟨v, hv⟩ := hplan
  exact .scalar hs hv

/-- When texts are texts and callables are left, all data converts but for fractions. -/
theorem converts_of_leave (hl : options.readLiterals = false) (hc : options.callables = .leave)
    (h : Host) (hf : ∀ num den, Contains h (.fraction num den) →
      ∃ m, Number.Magnitude.quotient (.int num) (.int den) = .ok m) : Converts options h := by
  cases hp : h.parts? with
  | some items =>
    refine .compound hp fun item hi => ?_
    have hlt := sizeOf_lt_of_parts hp hi
    exact converts_of_leave hl hc item fun num den ho => hf num den (.part hp hi ho)
  | none =>
    cases h with
    | list | tuple | dict | record => cases hp
    | callable c => exact .left c hc
    | future place => exact .future place
    | _ =>
      refine converts_of_isScalar hl rfl fun num den he => ?_
      exact hf num den (he ▸ .self _)
termination_by sizeOf h

end Leaving

end SassData.Host
