import Mathlib.Data.Finset.Card
import SassData.Proofs.Future.StoreStates
import SassData.Proofs.Host.UnfoldedData

/-!
# Results of futures in data

A future in data is converted once it has its result, and so are the futures in that. Nothing comes
of the data as long as one of them has come to nothing or comes up in its own result, and otherwise
the data is settled after as many results on the way as there are futures.
-/

namespace SassData

set_option autoImplicit false

open Relation (TransGen)

namespace Host

/-! ## Chains of results -/

section

variable {options : ToStyle} {known : Nat → Option (Outcome Host)} {data : Host}

theorem again?_of_none {place : Nat} (h : known place = none) (n : Nat) :
    (toStyle options data).again? known n place = none := by
  cases n with
  | zero => rfl
  | succ n => rw [Job.again?, h]

theorem again?_of_ok {place : Nat} {r : Host} (h : known place = some (.ok r)) (n : Nat) :
    (toStyle options data).again? known (n + 1) place =
      (stylePlan options r).result? known ((toStyle options data).again? known n) := by
  rw [Job.again?, h]
  rfl

theorem again?_of_error {place : Nat} {failure : Failure} (h : known place = some (.error failure))
    (n : Nat) :
    (toStyle options data).again? known (n + 1) place = some (.error failure) := by
  rw [Job.again?, h]

theorem result?_of_reaches {h : Host} {place : Nat} (hl : Reaches options known h place)
    (hn : known place = none) (hh : Converts options h)
    (hr : ∀ q r, Reaches options known h q → known q = some (.ok r) → Converts options r)
    (n : Nat) :
    (stylePlan options h).result? known ((toStyle options data).again? known n) = none := by
  induction hl generalizing n with
  | shown hs => exact result?_eq_none hh hs (again?_of_none hn n)
  | @through h r first last hs hfirst hl ih =>
    refine result?_eq_none hh hs ?_
    cases n with
    | zero => rfl
    | succ n =>
      rw [again?_of_ok hfirst]
      have hconverts := hr first r (.shown hs) hfirst
      apply ih hn hconverts
      intro q r' hq
      exact hr q r' (.through hs hfirst hq)

theorem reaches_of_shows {h : Host} {place last : Nat} (hs : Shows options h place)
    (hl : Reaches options known (.future place) last) : Reaches options known h last := by
  cases hl with
  | shown hq =>
    rw [eq_of_shows_future hq]
    exact .shown hs
  | through hq hr hl =>
    rw [eq_of_shows_future hq] at hr
    exact .through hs hr hl

theorem Reaches.shows {h r : Host} {place q : Nat} (hl : Reaches options known h place)
    (hr : known place = some (.ok r)) (hs : Shows options r q) : Reaches options known h q := by
  induction hl with
  | shown hfirst => exact .through hfirst hr (.shown hs)
  | through hfirst hk _ ih => exact .through hfirst hk (ih hr)

theorem unfolds_of_resolved {place : Nat} {r : Host} {outcome : Outcome Host}
    (hr : known place = some (.ok r)) (hu : Unfolds options known (.future place) outcome) :
    Unfolds options known r outcome := by
  cases hu with
  | scalar hs => cases hs
  | compound hp => cases hp
  | resolved hk hu =>
    rw [hr] at hk
    cases hk
    exact hu
  | failed hk =>
    rw [hr] at hk
    cases hk

theorem eq_of_unfolds_failed {place : Nat} {failure : Failure} {outcome : Outcome Host}
    (hr : known place = some (.error failure))
    (hu : Unfolds options known (.future place) outcome) : outcome = .error failure := by
  cases hu with
  | scalar hs => cases hs
  | compound hp => cases hp
  | resolved hk =>
    rw [hr] at hk
    cases hk
  | failed hk =>
    rw [hr] at hk
    cases hk
    rfl

/-- The second future stands in the result of the first. -/
def Leads (options : ToStyle) (known : Nat → Option (Outcome Host)) (q place : Nat) : Prop :=
  ∃ r, known place = some (.ok r) ∧ Shows options r q

theorem acc_of_unfolds {h : Host} {outcome : Outcome Host}
    (hu : Unfolds options known h outcome) :
    ∀ q, Shows options h q → Acc (Leads options known) q := by
  refine @Unfolds.rec options known
    (fun h _ _ => ∀ q, Shows options h q → Acc (Leads options known) q)
    (fun items _ _ => ∀ item ∈ items, ∀ q, Shows options item q → Acc (Leads options known) q)
    ?scalar ?left ?called ?compound ?resolved ?failed ?nil ?cons h outcome hu
  case scalar =>
    intro h hs q hq
    exact absurd hq (not_shows_of_isScalar hs q)
  case left =>
    intro c hc q hq
    exact absurd hq (not_shows_of_left hc c q)
  case called =>
    intro c arguments r outcome hc hr _ ih q hq
    exact ih q ((shows_iff_of_called hc hr).mp hq)
  case compound =>
    intro h items outcomes hp _ ih q hq
    obtain ⟨item, hi, hs⟩ := (shows_iff_of_parts hp).mp hq
    exact ih item hi q hs
  case resolved =>
    intro place r outcome hr _ ih q hq
    rw [eq_of_shows_future hq]
    refine ⟨_, fun x hx => ?_⟩
    obtain ⟨r', hr', hx⟩ := hx
    rw [hr] at hr'
    cases hr'
    exact ih x hx
  case failed =>
    intro place failure hr q hq
    rw [eq_of_shows_future hq]
    refine ⟨_, fun x hx => ?_⟩
    obtain ⟨r, hr', -⟩ := hx
    rw [hr] at hr'
    cases hr'
  case nil =>
    intro item hi
    cases hi
  case cons =>
    intro item outcome rest outcomes _ _ ih ihs other ho
    rcases List.mem_cons.mp ho with rfl | ho
    · exact ih
    · exact ihs other ho

theorem acc_of_reaches {h : Host} {place : Nat}
    (ha : ∀ q, Shows options h q → Acc (Leads options known) q)
    (hl : Reaches options known h place) : Acc (Leads options known) place := by
  induction hl with
  | shown hs => exact ha _ hs
  | through hs hr _ ih =>
    apply ih
    intro x hx
    exact (ha _ hs).inv ⟨_, hr, hx⟩

theorem transGen_of_reaches {r : Host} {first last : Nat} (hr : known first = some (.ok r))
    (hl : Reaches options known r last) : TransGen (Leads options known) last first := by
  induction hl generalizing first with
  | shown hs => exact .single ⟨_, hr, hs⟩
  | through hs hk _ ih => exact .trans (ih hk) (.single ⟨_, hr, hs⟩)

/-- A future that has come to something that converts, and is in no circle. -/
structure Available (options : ToStyle) (known : Nat → Option (Outcome Host)) (place : Nat) :
    Prop where
  there : known place ≠ none
  straight : ¬ Circle options known place
  converts : ∀ r, known place = some (.ok r) → Converts options r

/-- A way through results that are available comes to an end before there are more futures on it
than there are. -/
theorem settled_of_available (n : Nat) (places : Finset Nat) (hcard : places.card ≤ n) {place : Nat}
    (hin : ∀ q, Reaches options known (.future place) q → q ∈ places)
    (ha : ∀ q, Reaches options known (.future place) q → Available options known q) :
    Settled options known ((toStyle options data).again? known n) (.future place) := by
  induction n generalizing places place with
  | zero =>
    have hmem := hin place (.shown (.future place))
    have hpos := Finset.card_pos.mpr ⟨place, hmem⟩
    omega
  | succ n ih =>
    have hself := ha place (.shown (.future place))
    cases hk : known place with
    | none => exact absurd hk hself.there
    | some outcome =>
      cases outcome with
      | error failure =>
        refine ⟨.error failure, .error failure, .failed hk, ?_, ?_, rfl⟩
        · intro other ho
          exact eq_of_unfolds_failed hk ho
        · rw [stylePlan_future, Plan.result?, again?_of_error hk]
      | ok r =>
        have hsettled : Settled options known ((toStyle options data).again? known n) r := by
          refine settled_of_shows (hself.converts r hk) fun q hq => ?_
          have hreach {x : Nat} (hx : Reaches options known (.future q) x) :
              Reaches options known r x := reaches_of_shows hq hx
          -- What follows does not come back to `place`, so one place less is left to go through.
          apply ih (places.erase place)
          · have hmem := hin place (.shown (.future place))
            rw [Finset.card_erase_of_mem hmem]
            omega
          · intro x hx
            have hxr := hreach hx
            refine Finset.mem_erase.mpr ⟨?_, hin x (.through (.future place) hk hxr)⟩
            rintro rfl
            exact hself.straight ⟨r, hk, hxr⟩
          · intro x hx
            exact ha x (.through (.future place) hk (hreach hx))
        obtain ⟨outcome, result, hu, hone, hres, hg⟩ := hsettled
        refine ⟨outcome, result, .resolved hk hu, ?_, ?_, hg⟩
        · intro other ho
          exact hone other (unfolds_of_resolved hk ho)
        · rw [stylePlan_future, Plan.result?, again?_of_ok hk]
          exact hres

/-- If all futures are available that are reached from data, the data is settled. -/
theorem settled_of_reaches {h : Host} (hh : Converts options h)
    (ha : ∀ q, Reaches options known h q → Available options known q) {n : Nat}
    (hn : ∀ q, Reaches options known h q → q < n) :
    Settled options known ((toStyle options data).again? known n) h := by
  refine settled_of_shows hh fun place hs => ?_
  refine settled_of_available n (Finset.range n) (Finset.card_range n).le ?_ ?_
  · exact fun q hq => Finset.mem_range.mpr (hn q (reaches_of_shows hs hq))
  · exact fun q hq => ha q (reaches_of_shows hs hq)

end

/-! ## What a result depends on -/

section

variable {options : ToStyle} {known more : Nat → Option (Outcome Host)} {data h : Host}

theorem result?_congr_of_shows {again further : Nat → Option (Outcome Host)}
    (hh : Converts options h) (ha : ∀ q, Shows options h q → again q = further q) :
    (stylePlan options h).result? known again = (stylePlan options h).result? more further := by
  induction hh with
  | scalar _ hv =>
    rw [hv]
    rfl
  | future place =>
    rw [stylePlan_future]
    exact ha place (.future place)
  | compound hp hi ih =>
    rw [result?_of_parts hp hi, result?_of_parts hp hi]
    refine congrArg (Plan.combine _) (List.map_congr_left fun item hitem => ?_)
    exact ih item hitem fun q hs => ha q (.part hp hitem hs)
  | left c hc =>
    rw [stylePlan_left hc]
    rfl
  | called hc hr hh ih =>
    rw [stylePlan_called hc hr hh]
    exact ih fun q hs => ha q (.called hc hr hs)

theorem again?_congr
    (hr : ∀ q r, Reaches options known h q → known q = some (.ok r) → Converts options r)
    (hsame : ∀ q, Reaches options known h q → more q = known q) (n : Nat) {place : Nat}
    (hl : Reaches options known h place) :
    (toStyle options data).again? known n place = (toStyle options data).again? more n place := by
  induction n generalizing place with
  | zero => rfl
  | succ n ih =>
    have hmore := hsame place hl
    cases hk : known place with
    | none => rw [again?_of_none hk, again?_of_none (hmore.trans hk)]
    | some outcome =>
      cases outcome with
      | error failure => rw [again?_of_error hk, again?_of_error (hmore.trans hk)]
      | ok r =>
        rw [again?_of_ok hk, again?_of_ok (hmore.trans hk)]
        exact result?_congr_of_shows (hr place r hl hk) fun q hs => ih (hl.shows hk hs)

theorem result?_congr_of_reaches (hh : Converts options h)
    (hr : ∀ q r, Reaches options known h q → known q = some (.ok r) → Converts options r)
    (hsame : ∀ q, Reaches options known h q → more q = known q) (n : Nat) :
    (toStyle options h).result? known n = (toStyle options h).result? more n :=
  result?_congr_of_shows hh fun _ hs => again?_congr hr hsame n (.shown hs)

theorem acc_of_again?
    (hr : ∀ q r, Reaches options known h q → known q = some (.ok r) → Converts options r)
    {n place : Nat} (hl : Reaches options known h place)
    (ha : (toStyle options data).again? known n place ≠ none) :
    Acc (Leads options known) place := by
  induction n generalizing place with
  | zero => exact absurd rfl ha
  | succ n ih =>
    refine ⟨_, fun q hq => ?_⟩
    obtain ⟨r, hk, hs⟩ := hq
    refine ih (hl.shows hk hs) fun hnone => ha ?_
    rw [again?_of_ok hk]
    exact result?_eq_none (hr place r hl hk) hs hnone

/-- Where something comes of data, all futures are available that are reached from it. -/
theorem available_of_result? (hh : Converts options h)
    (hr : ∀ q r, Reaches options known h q → known q = some (.ok r) → Converts options r) {n : Nat}
    (hres : (toStyle options h).result? known n ≠ none) {place : Nat}
    (hl : Reaches options known h place) : Available options known place where
  there hnone := hres (result?_of_reaches hl hnone hh hr n)
  straight := by
    rintro ⟨r, hk, hc⟩
    have hacc (q : Nat) (hs : Shows options h q) : Acc (Leads options known) q := by
      have hagain : (toStyle options h).again? known n q ≠ none :=
        fun hnone => hres (result?_eq_none hh hs hnone)
      exact acc_of_again? hr (.shown hs) hagain
    exact not_self_of_acc (acc_of_reaches hacc hl).transGen (transGen_of_reaches hk hc)
  converts r := hr place r hl

/-- How many futures there are makes no difference, if there are those that are reached. -/
theorem result?_eq_of_reaches (hh : Converts options h)
    (hr : ∀ q r, Reaches options known h q → known q = some (.ok r) → Converts options r)
    {n k : Nat} (hn : ∀ q, Reaches options known h q → known q ≠ none → q < n)
    (hk : ∀ q, Reaches options known h q → known q ≠ none → q < k) :
    (toStyle options h).result? known n = (toStyle options h).result? known k := by
  have hsame {i j : Nat} (hj : ∀ q, Reaches options known h q → known q ≠ none → q < j)
      {result : Outcome Host} (hi : (toStyle options h).result? known i = some result) :
      (toStyle options h).result? known j = some result := by
    have hready {q : Nat} (hq : Reaches options known h q) : Available options known q :=
      available_of_result? hh hr (hi ▸ Option.some_ne_none result) hq
    obtain ⟨-, other, -, -, hother, -⟩ :
        Settled options known ((toStyle options h).again? known j) h :=
      settled_of_reaches hh (fun q => hready) fun q hq => hj q hq (hready hq).there
    have hmax := Job.result?_extends _ (fun _ _ => id) (Nat.le_max_left i j) hi
    rw [Job.result?_extends (toStyle options h) (fun _ _ => id) (Nat.le_max_right i j) hother]
      at hmax
    exact hother.trans hmax
  exact Option.ext fun result => ⟨hsame hk, hsame hn⟩

end

end Host

end SassData
