import SassData.Proofs.Future.MachineCalls
import SassData.Proofs.Host.ResultChains

/-!
# Futures in data are transparent

Data with futures in it is converted into a future. That one is pending as long as a future that can
be reached is, and then it has the value of the data with all results put in, or else the first of
the failures, in whatever order the futures were settled.
-/

namespace SassData

set_option autoImplicit false

open Future (Answer Callback Leaves Machine Origin Settlement State Store)
open Future.Machine (Happens Serves Steps)
open Relation (ReflTransGen)

namespace Host

/-! ## Conversions of conversions -/

section

variable {options : ToStyle} {known : Nat → Option (Outcome Host)}

theorem shows_of_begins {h : Host} (hh : Converts options h) {p : Nat} {next : Host → Plan Host}
    (hb : (stylePlan options h).Begins (stylePlan options) p next) :
    next = stylePlan options ∧ Shows options h p := by
  induction hh with
  | scalar _ hv =>
    rw [hv] at hb
    cases hb
  | future =>
    rw [stylePlan_future] at hb
    cases hb
    exact ⟨rfl, .future p⟩
  | @compound h items hp _ ih =>
    rw [stylePlan_of_parts hp] at hb
    cases hb with
    | item hmem hb =>
      obtain ⟨item, hi, rfl⟩ := List.mem_map.mp hmem
      obtain ⟨hnext, hs⟩ := ih item hi hb
      exact ⟨hnext, .part hp hi hs⟩
  | left c hc =>
    rw [stylePlan_left hc] at hb
    cases hb
  | called hc hr hh ih =>
    rw [stylePlan_called hc hr hh] at hb
    obtain ⟨hnext, hs⟩ := ih hb
    exact ⟨hnext, .called hc hr hs⟩

/-- Every conversion in the machine is that of a future that is reached from the data. -/
def Follows (options : ToStyle) (known : Nat → Option (Outcome Host)) (h : Host)
    (m : Machine Host) : Prop :=
  ∀ (t p : Nat) (next restart : Host → Plan Host),
    m.made[t]? = some (.converted p next restart) →
      next = stylePlan options ∧ restart = stylePlan options ∧ Reaches options known h p

variable {h : Host} {m n : Machine Host}

theorem Follows.steps (hf : Follows options known h m) (hm : m.IsSound)
    (hserves : m.Serves (toStyle options h)) (hk : Extends m.known known)
    (hh : Converts options h)
    (hr : ∀ place r, Reaches options known h place → known place = some (.ok r) →
      Converts options r) (hs : Steps m n) : Follows options known h n := by
  rcases hs.changes_or_advances with
    ⟨_, hc⟩ | ⟨before, after, owner, plan, later, restart, made, ht, ha, rfl⟩
  · rw [Follows, hc.made]
    exact hf
  have hmem : (⟨owner, plan, restart⟩ : Future.Task Host) ∈ m.tasks := by rw [ht]; simp
  cases made with
  | none => exact hf
  | some origin =>
    intro t p next restarted hmade
    rcases Future.of_getElem?_concat hmade with hold | ⟨-, rfl⟩
    · exact hf t p next restarted hold
    · obtain ⟨hb, rfl⟩ := ha.begins
      cases owner with
      | none =>
        obtain ⟨rfl, hbecomes⟩ := hserves.becomes hmem
        obtain ⟨rfl, hshown⟩ := shows_of_begins hh (hbecomes.begins hb)
        exact ⟨rfl, rfl, .shown hshown⟩
      | some target =>
        obtain ⟨q, first, a, hmade, hq, hbecomes⟩ := hm.works hmem
        obtain ⟨rfl, rfl, hl⟩ := hf target q first _ hmade
        have hknown := hk q _ hq
        obtain ⟨rfl, hshown⟩ := shows_of_begins (hr q a hl hknown) (hbecomes.begins hb)
        exact ⟨rfl, rfl, hl.shows hknown hshown⟩

theorem Follows.happens (hf : Follows options known h m) (hm : m.IsSound)
    (hserves : m.Serves (toStyle options h)) (hk : Extends m.known known)
    (hh : Converts options h)
    (hr : ∀ place r, Reaches options known h place → known place = some (.ok r) →
      Converts options r) (hs : Happens m n) : Follows options known h n := by
  cases hs with
  | step hs => exact hf.steps hm hserves hk hh hr hs
  | settle => exact hf
  | source =>
    intro t p next restart hmade
    rcases Future.of_getElem?_concat hmade with hold | ⟨-, hnew⟩
    · exact hf t p next restart hold
    · cases hnew

theorem follows_of_happens (hstart : m.IsIdle)
    (hn : ReflTransGen Happens (m.start (toStyle options h)) n) (hk : Extends n.known known)
    (hh : Converts options h)
    (hr : ∀ place r, Reaches options known h place → known place = some (.ok r) →
      Converts options r) :
    n.IsSound ∧ n.Serves (toStyle options h) ∧ Follows options known h n := by
  induction hn with
  | refl =>
    refine ⟨Machine.isSound_start hstart.sound _, Machine.serves_start hstart.callers _, ?_⟩
    intro t p next restart hmade
    cases hstart.made t _ hmade
  | tail _ hs ih =>
    have hbefore : Extends _ known := fun place outcome ho =>
      hk place outcome (Machine.extends_of_settles hs.settles place outcome ho)
    obtain ⟨hsound, hserves, hf⟩ := ih hbefore
    exact ⟨hs.isSound hsound, hs.serves hsound hserves,
      hf.happens hsound hserves hbefore hh hr hs⟩

/-! ## All conversions come to an end -/

theorem acc_conversion
    (hr : ∀ place r, Reaches options known h place → known place = some (.ok r) →
      Converts options r) (hthere : ∀ place, Reaches options known h place → known place ≠ none)
    {place : Nat} (ha : Acc (Leads options known) place) (hl : Reaches options known h place)
    (target : Nat) :
    Acc (Leaves known)
      (.callback (place, .convert target (stylePlan options) (stylePlan options))) := by
  induction ha generalizing target with
  | intro place _ ih =>
    refine ⟨_, fun work hleaves => ?_⟩
    cases hleaves with
    | @convert _ _ _ _ r hresult =>
      obtain ⟨outcome, ho⟩ := Option.ne_none_iff_exists'.mp (hthere place hl)
      cases hresult outcome ho
      refine Future.acc_task (fun q next hb t => ?_) _
      obtain ⟨rfl, hs⟩ := shows_of_begins (hr place r hl ho) hb
      exact ih q ⟨r, ho, hs⟩ (hl.shows ho hs) t

/-- Where every future that is reached from the data is settled, and none is in a circle, all that
is to be done comes to an end. -/
theorem Follows.isFinite (hf : Follows options n.known h n) (hn : n.IsSound)
    (hserves : n.Serves (toStyle options h)) (hh : Converts options h)
    (hr : ∀ place r, Reaches options n.known h place → n.known place = some (.ok r) →
      Converts options r) (hthere : ∀ place, Reaches options n.known h place → n.known place ≠ none)
    (ha : ∀ place, Reaches options n.known h place → Acc (Leads options n.known) place) :
    n.IsFinite n.known := by
  have hconversion {place : Nat} (hl : Reaches options n.known h place) (target : Nat) :=
    acc_conversion hr hthere (ha place hl) hl target
  intro work hw
  rcases Multiset.mem_add.mp hw with hw | hw
  · obtain ⟨⟨place, callback⟩, hmem, rfl⟩ := List.mem_map.mp (Multiset.mem_coe.mp hw)
    cases hn.waits hmem with
    | @convert target next restart hmade =>
      obtain ⟨rfl, rfl, hl⟩ := hf target place next restart hmade
      exact hconversion hl target
    | forward => exact Future.acc_forward
    | count => exact Future.acc_count
  · obtain ⟨⟨owner, plan, restart⟩, hmem, rfl⟩ := List.mem_map.mp (Multiset.mem_coe.mp hw)
    cases owner with
    | none =>
      obtain ⟨rfl, hbecomes⟩ := hserves.becomes hmem
      refine Future.acc_task (fun p next hb target => ?_) none
      obtain ⟨rfl, hs⟩ := shows_of_begins hh (hbecomes.begins hb)
      exact hconversion (.shown hs) target
    | some t =>
      obtain ⟨p, first, a, hmade, hp, hbecomes⟩ := hn.works hmem
      obtain ⟨rfl, rfl, hl⟩ := hf t p first restart hmade
      refine Future.acc_task (fun q next hb target => ?_) (some t)
      obtain ⟨rfl, hs⟩ := shows_of_begins (hr p a hl hp) (hbecomes.begins hb)
      exact hconversion (hl.shows hp hs) target

end

/-! ## The future of a conversion -/

section

variable {options : ToStyle}

theorem stylePlan_ne_existing {h : Host} (hh : Converts options h) (place : Nat) :
    stylePlan options h ≠ .existing place := by
  induction hh with
  | scalar _ hv =>
    rw [hv]
    intro he
    cases he
  | future place =>
    rw [stylePlan_future]
    intro he
    cases he
  | compound hp =>
    rw [stylePlan_of_parts hp]
    intro he
    cases he
  | left c hc =>
    rw [stylePlan_left hc]
    intro he
    cases he
  | called hc hr hh ih =>
    rw [stylePlan_called hc hr hh]
    exact ih

theorem prospect_of_shows {h : Host} (hh : Converts options h)
    (hs : ∃ place, Shows options h place) : (stylePlan options h).prospect = .later := by
  rcases ready_of_converts hh with ⟨-, hp⟩ | ⟨hnone, -⟩
  · exact hp
  · obtain ⟨place, hs⟩ := hs
    exact absurd hs (hnone place)

/-- A future has come to what data unfolds to: to the value that data without futures is converted
to at once, or to the failure. -/
def HasUnfolded (options : ToStyle) : Outcome Host → State Host → Prop
  | .ok data, state => ∃ v, state = .done (.value v) ∧
      ∀ u : Store Host, u.launch (toStyle options data) = (u, .now (.value v))
  | .error failure, state => state = .failed failure

/-- As long as a future is pending that is reached from the data, so is the one it is converted
into. -/
theorem state_of_pending {h : Host} {n : Machine Host} (hn : n.IsSound)
    (hserves : n.Serves (toStyle options h)) (hh : Converts options h)
    (hr : ∀ place r, Reaches options n.known h place → n.known place = some (.ok r) →
      Converts options r) {place : Nat} (hl : Reaches options n.known h place)
    (hp : n.state place = .pending) {target : Nat} (ha : n.HasAnswered (.future target)) :
    n.state target = .pending := by
  have hnone : n.known place = none := congrArg State.result? hp
  have hnothing : (toStyle options h).result? n.known n.states.length = none :=
    result?_of_reaches hl hnone hh hr _
  by_contra hpending
  have hstate := hserves.state_eq hn ha (stylePlan_ne_existing hh target) (Or.inr hpending)
  rw [hnothing] at hstate
  exact hpending hstate

theorem hasUnfolded_of_gives {h : Host} {n : Machine Host} (hn : n.IsSound)
    (hserves : n.Serves (toStyle options h)) (hh : Converts options h)
    {outcome result : Outcome Host}
    (hresult : (toStyle options h).result? n.known n.states.length = some result)
    (hg : Gives options outcome result) {target : Nat} (ha : n.HasAnswered (.future target))
    (hsettled : n.IsQuiet ∨ n.state target ≠ .pending) :
    HasUnfolded options outcome (n.state target) := by
  have hstate := hserves.state_eq hn ha (stylePlan_ne_existing hh target) hsettled
  rw [hresult] at hstate
  cases outcome with
  | error failure =>
    cases hg
    exact hstate
  | ok data =>
    obtain ⟨v, hv, rfl⟩ := hg
    exact ⟨v, hstate, launch_of_prospect hv⟩

/-- Data with futures in it is converted into a new future. Whatever futures are settled from
outside, before the call and after it, and whatever goes on in between: as long as one is pending
that is reached from the data through the results that are there, so is the new one. When all are
settled and none comes up in its own result, everything that is to be done comes to an end, and the
data unfolds in one way: to data without futures, and then the new future has the value that is
converted to at once, or to the first failure in the order of the data, and then it has that. -/
theorem toStyle_transparent {h : Host} {m n : Machine Host}
    (hm : ReflTransGen Happens Machine.empty m)
    (hn : ReflTransGen Happens (m.start (toStyle options h)) n) (hh : Converts options h)
    (hs : ∃ place, Shows options h place)
    (hr : ∀ place r, Reaches options n.known h place → n.known place = some (.ok r) →
      Converts options r) :
    (∃ last target, ReflTransGen Steps n last ∧ last.HasAnswered (.future target)) ∧
    (∀ answer, n.HasAnswered answer → ∃ target, answer = .future target ∧
      (∀ last other, ReflTransGen Happens n last →
        (last.HasAnswered other ↔ other = .future target)) ∧
      ((∃ place, Reaches options n.known h place ∧ n.state place = .pending) →
        n.state target = .pending)) ∧
    ((∀ place, Reaches options n.known h place →
        n.state place ≠ .pending ∧ ¬ Circle options n.known place) →
      Acc (fun last n : Machine Host => Steps n last) n ∧
      ∃ outcome, Unfolds options n.known h outcome ∧
        (∀ other, Unfolds options n.known h other → other = outcome) ∧
        ∀ last, ReflTransGen Happens n last →
          (last.IsQuiet → ∃ target, last.HasAnswered (.future target)) ∧
          ∀ target, last.HasAnswered (.future target) →
            last.IsQuiet ∨ last.state target ≠ .pending →
              HasUnfolded options outcome (last.state target)) := by
  obtain ⟨hsound, hserves, hf⟩ :=
    follows_of_happens (Machine.isIdle_of_happens hm) hn (fun _ _ => id) hh hr
  have hlater := prospect_of_shows hh hs
  have hserved {last : Machine Host} (hlast : ReflTransGen Happens n last) :
      last.Serves (toStyle options h) := Machine.serves_of_happens hlast hsound hserves
  refine ⟨?_, ?_, ?_⟩
  · obtain ⟨last, answer, hsteps, hanswer⟩ := hserves.exists_steps
    have hlast := hserved (hsteps.lift id fun _ _ => Happens.step)
    obtain ⟨target, rfl⟩ := (hlast.becomes_answer hanswer).exists_future hlater
    exact ⟨last, target, hsteps, hanswer⟩
  · intro answer hanswer
    obtain ⟨target, rfl⟩ := (hserves.becomes_answer hanswer).exists_future hlater
    refine ⟨target, rfl, fun last other hlast => ?_, ?_⟩
    · have hkept := Machine.hasAnswered_of_happens hanswer hlast
      exact ⟨(hserved hlast).eq_answer hkept, fun heq => heq ▸ hkept⟩
    · rintro ⟨place, hl, hp⟩
      exact state_of_pending hsound hserves hh hr hl hp hanswer
  · intro hall
    have hready (place : Nat) (hl : Reaches options n.known h place) :
        Available options n.known place := by
      obtain ⟨hp, hstraight⟩ := hall place hl
      exact ⟨fun hnone => hp (Machine.state_eq_pending hnone), hstraight, fun r => hr place r hl⟩
    obtain ⟨outcome, result, hu, hone, hres, hg⟩ :
        Settled options n.known ((toStyle options h).again? n.known n.states.length) h :=
      settled_of_reaches hh hready fun q hq => Machine.lt_of_known (hready q hq).there
    have hfinite : n.IsFinite n.known :=
      hf.isFinite hsound hserves hh hr (fun place hl => (hready place hl).there)
        fun place => acc_of_reaches (acc_of_unfolds hu)
    refine ⟨hfinite.acc fun _ _ => id, outcome, hu, hone, fun last hlast => ⟨?_, ?_⟩⟩
    · intro hquiet
      obtain ⟨answer, hanswer⟩ := (hserved hlast).exists_hasAnswered hquiet
      obtain ⟨target, rfl⟩ := ((hserved hlast).becomes_answer hanswer).exists_future hlater
      exact ⟨target, hanswer⟩
    · intro target hanswer hsettled
      have hresult : (toStyle options h).result? last.known last.states.length = some result :=
        Job.result?_extends _ (Machine.extends_of_happens hlast)
          (Machine.length_le_of_happens hlast hsound) hres
      exact hasUnfolded_of_gives (Machine.isSound_of_happens hlast hsound) (hserved hlast) hh
        hresult hg hanswer hsettled

/-! ## The future in a store -/

theorem launch_of_shows {h : Host} (hh : Converts options h)
    (hs : ∃ place, Shows options h place) (s : Store Host) :
    s.launch (toStyle options h) =
      (⟨s.cells ++ [⟨.pending, some (toStyle options h)⟩]⟩, .future s.cells.length) := by
  have hlater : (toStyle options h).plan.prospect = .later := prospect_of_shows hh hs
  rw [Store.launch, hlater]
  split
  · next hp => cases hp
  · next hp => cases hp
  · next place _ hp => exact absurd hp (stylePlan_ne_existing hh place)
  · rfl

/-- Once nothing is left to be done, the states are those of the store of the machine, and the new
future is in the state of the future that a store gives for the data, if the futures that are
reached from the data are in the same states there. -/
theorem state_eq_launch {h : Host} {m n : Machine Host}
    (hm : ReflTransGen Happens Machine.empty m)
    (hn : ReflTransGen Happens (m.start (toStyle options h)) n) (hh : Converts options h)
    (hs : ∃ place, Shows options h place)
    (hr : ∀ place r, Reaches options n.known h place → n.known place = some (.ok r) →
      Converts options r) (hquiet : n.IsQuiet) {target : Nat}
    (ha : n.HasAnswered (.future target)) {s t : Store Host}
    (ht : (s.launch (toStyle options h)).1.Grows t)
    (hsame : ∀ place, Reaches options n.known h place → t.result? place = n.known place) :
    n.state = n.store.state ∧ ∃ place,
      (s.launch (toStyle options h)).2 = .future place ∧ t.state place = n.state target := by
  obtain ⟨hsound, hserves, -⟩ :=
    follows_of_happens (Machine.isIdle_of_happens hm) hn (fun _ _ => id) hh hr
  rw [launch_of_shows hh hs] at ht ⊢
  refine ⟨Machine.state_eq_store_of_happens hm hn hquiet, s.cells.length, rfl, ?_⟩
  · have hcell : t.cells[s.cells.length]? = some ⟨.pending, some (toStyle options h)⟩ := by
      rcases ht _ _ List.getElem?_concat_length with hcell | ⟨hpending, -⟩
      · exact hcell
      · cases hpending
    have hstate := hserves.state_eq hsound ha (stylePlan_ne_existing hh target) (Or.inl hquiet)
    rw [t.state_of_job hcell, hstate, ← result?_congr_of_reaches hh hr hsame]
    refine congrArg State.ofResult (result?_eq_of_reaches hh hr ?_ ?_)
    · intro q hq hknown
      obtain ⟨outcome, ho⟩ := Option.ne_none_iff_exists'.mp hknown
      exact t.lt_of_result? ((hsame q hq).trans ho)
    · exact fun q _ => Machine.lt_of_known

end

/-! ## A future twice, with another in its result -/

/-- What holds of the futures in data, and in the results of those it holds of, holds of all that
are reached. -/
theorem Reaches.induct {options : ToStyle} {known : Nat → Option (Outcome Host)}
    {good : Nat → Prop} {h : Host} {place : Nat} (hl : Reaches options known h place)
    (hs : ∀ q, Shows options h q → good q)
    (hr : ∀ q r, good q → known q = some (.ok r) → ∀ x, Shows options r x → good x) :
    good place := by
  induction hl with
  | shown hq => exact hs _ hq
  | through hq hk _ ih =>
    apply ih
    intro x hx
    exact hr _ _ (hs _ hq) hk x hx

def twice : Host := .list [.future 0, .future 0]

/-- Two sources, of which the first one has a result with the second one in it. -/
def beforeTwice : Machine Host :=
  ((Machine.empty.make .source).make .source).settle 0 (.done (.tuple [.future 1]))

/-- The call is under way, and the second source is settled. -/
def afterTwice : Machine Host :=
  (beforeTwice.start (toStyle .standard twice)).settle 1 (.done .null)

theorem happens_beforeTwice : ReflTransGen Happens Machine.empty beforeTwice := by
  let sources : Machine Host := (Machine.empty.make .source).make .source
  have hsources : ReflTransGen Happens Machine.empty sources :=
    .tail (.single (.source _)) (.source _)
  have hsettle : Happens sources beforeTwice :=
    .settle (m := sources) rfl (Settlement.complete (.ok (Host.tuple [.future 1])))
  exact hsources.tail hsettle

theorem happens_afterTwice :
    ReflTransGen Happens (beforeTwice.start (toStyle .standard twice)) afterTwice := by
  have hsettle : Happens (beforeTwice.start (toStyle .standard twice)) afterTwice :=
    .settle (m := beforeTwice.start _) rfl (Settlement.complete (.ok Host.null))
  exact .single hsettle

theorem shows_twice {place : Nat} (hs : Shows .standard twice place) : place = 0 := by
  obtain ⟨item, hi, hs⟩ := (shows_iff_of_parts rfl).mp hs
  have hitem : item = .future 0 := by simpa using hi
  subst hitem
  exact eq_of_shows_future hs

theorem shows_tuple {place : Nat} (hs : Shows .standard (.tuple [.future 1]) place) :
    place = 1 := by
  obtain ⟨item, hi, hs⟩ := (shows_iff_of_parts rfl).mp hs
  cases List.mem_singleton.mp hi
  exact eq_of_shows_future hs

theorem known_zero : afterTwice.known 0 = some (.ok (.tuple [.future 1])) := rfl

theorem known_one : afterTwice.known 1 = some (.ok .null) := rfl

theorem not_shows_null (place : Nat) : ¬ Shows .standard .null place :=
  not_shows_of_isScalar rfl place

theorem eq_of_reaches_twice {place : Nat} (hl : Reaches .standard afterTwice.known twice place) :
    place = 0 ∨ place = 1 := by
  apply hl.induct
  · intro q hq
    exact Or.inl (shows_twice hq)
  · rintro q r (rfl | rfl) hk x hx
    · rw [known_zero] at hk
      cases hk
      exact Or.inr (shows_tuple hx)
    · rw [known_one] at hk
      cases hk
      exact absurd hx (not_shows_null x)

theorem converts_twice : Converts .standard twice := by
  refine .compound rfl fun item hi => ?_
  have hitem : item = .future 0 := by simpa using hi
  exact hitem ▸ .future 0

theorem converts_of_reaches_twice {place : Nat} {r : Host}
    (hl : Reaches .standard afterTwice.known twice place)
    (hk : afterTwice.known place = some (.ok r)) : Converts .standard r := by
  rcases eq_of_reaches_twice hl with rfl | rfl
  · rw [known_zero] at hk
    cases hk
    refine .compound rfl fun item hi => ?_
    cases List.mem_singleton.mp hi
    exact .future 1
  · rw [known_one] at hk
    cases hk
    exact .scalar rfl rfl

theorem not_circle_zero : ¬ Circle .standard afterTwice.known 0 := by
  rintro ⟨r, hk, hc⟩
  rw [known_zero] at hk
  cases hk
  have hfalse : 0 = 1 := hc.induct (fun q hq => shows_tuple hq) fun q r hq hk x hx => by
    rw [hq, known_one] at hk
    cases hk
    exact absurd hx (not_shows_null x)
  cases hfalse

theorem not_circle_one : ¬ Circle .standard afterTwice.known 1 := by
  rintro ⟨r, hk, hc⟩
  rw [known_one] at hk
  cases hk
  exact hc.induct (fun q hq => not_shows_null q hq) fun q r hq => hq.elim

theorem unfolds_twice : Unfolds .standard afterTwice.known twice
    (.ok (.list [.tuple [.null], .tuple [.null]])) := by
  have hlast : Unfolds .standard afterTwice.known (.future 1) (.ok .null) :=
    .resolved known_one (.scalar rfl)
  have hinner : Unfolds .standard afterTwice.known (.tuple [.future 1]) (.ok (.tuple [.null])) :=
    .compound rfl (.cons hlast .nil)
  have hpart : Unfolds .standard afterTwice.known (.future 0) (.ok (.tuple [.null])) :=
    .resolved known_zero hinner
  exact .compound rfl (.cons hpart (.cons hpart .nil))

/-- A future that stands in a list twice, with a future in its result, settled before and after. -/
theorem toStyle_transparent_twice : ∃ last target, ReflTransGen Steps afterTwice last ∧
    last.IsQuiet ∧ last.HasAnswered (.future target) ∧
      last.state target = .done (.value
        (.list [.list [.null] .comma false, .list [.null] .comma false] .comma false)) := by
  have hall (place : Nat) (hl : Reaches .standard afterTwice.known twice place) :
      afterTwice.state place ≠ .pending ∧ ¬ Circle .standard afterTwice.known place := by
    rcases eq_of_reaches_twice hl with rfl | rfl
    · exact ⟨nofun, not_circle_zero⟩
    · exact ⟨nofun, not_circle_one⟩
  obtain ⟨-, -, hsettled⟩ := toStyle_transparent happens_beforeTwice happens_afterTwice
    converts_twice ⟨0, .part rfl List.mem_cons_self (.future 0)⟩
    fun place r => converts_of_reaches_twice
  obtain ⟨hacc, outcome, -, hunique, hlast⟩ := hsettled hall
  obtain ⟨last, hsteps, hquiet⟩ := Machine.exists_quiet hacc
  obtain ⟨hcall, hanswer⟩ := hlast last (hsteps.lift id fun _ _ => Happens.step)
  obtain ⟨target, htarget⟩ := hcall hquiet
  have hvalue := hanswer target htarget (Or.inl hquiet)
  rw [← hunique _ unfolds_twice] at hvalue
  obtain ⟨v, hstate, hlaunch⟩ := hvalue
  cases hlaunch Store.empty
  exact ⟨last, target, hsteps, hquiet, htarget, hstate⟩

end Host

end SassData
