import SassData.Proofs.Source.WrittenExpressions

/-!
# Items side by side

Where an item stands behind another with nothing but a blank between, the reading closes the first
and begins the next. A minus behind an item does not begin one: it takes the number behind it away
from the item. So negative numbers in a space list are gathered into the item before them.
-/

namespace SassData.Source

set_option autoImplicit false

open Reading (closeItem closeOperators isFloor)

/-! ## What the items are read as -/

/-- What stands behind an item: an item of its own, or a number that is taken away from it. -/
inductive Next
  | item (e : Expr)
  | less (n : Number)

def gathered (first : Expr) : List Next → List Expr
  | [] => [first]
  | .item e :: rest => first :: gathered e rest
  | .less n :: rest => gathered (.binary .sub first (.literal (.number n))) rest

/-- Several items are a space list, and one is itself. -/
def inRow : List Expr → Expr
  | [e] => e
  | es => .list es .space false

theorem inRow_eq_list {es : List Expr} (h : es.length ≠ 1) : inRow es = .list es .space false := by
  unfold inRow
  split
  · exact absurd rfl h
  · rfl

theorem gathered_items (first : Expr) (es : List Expr) :
    gathered first (es.map .item) = first :: es := by
  induction es generalizing first with
  | nil => rfl
  | cons e rest ih => rw [List.map_cons, gathered, ih]

theorem gathered_ne_nil (first : Expr) (nexts : List Next) : gathered first nexts ≠ [] := by
  fun_induction gathered first nexts with
  | case1 first => exact List.cons_ne_nil first []
  | case2 first e rest ih => exact List.cons_ne_nil first _
  | case3 first n rest ih => exact ih

theorem length_gathered_le (first : Expr) (nexts : List Next) :
    (gathered first nexts).length ≤ nexts.length + 1 := by
  fun_induction gathered first nexts with
  | case1 first => exact Nat.le_refl 1
  | case2 first e rest ih => exact Nat.succ_le_succ ih
  | case3 first n rest ih => exact Nat.le_succ_of_le ih

theorem length_gathered_lt {first : Expr} {nexts : List Next} {n : Number}
    (h : Next.less n ∈ nexts) : (gathered first nexts).length < nexts.length + 1 := by
  fun_induction gathered first nexts with
  | case1 first => cases h
  | case2 first e rest ih =>
    rcases List.mem_cons.mp h with h | h
    · cases h
    · exact Nat.succ_lt_succ (ih h)
  | case3 first m rest ih => exact Nat.lt_succ_of_le (length_gathered_le _ rest)

/-- If only one item is left of several, it is a difference. -/
theorem gathered_eq_singleton {first e : Expr} {nexts : List Next}
    (h : gathered first nexts = [e]) :
    nexts = [] ∧ first = e ∨ ∃ left right, e = .binary .sub left right := by
  fun_induction gathered first nexts with
  | case1 first =>
    cases h
    exact Or.inl ⟨rfl, rfl⟩
  | case2 first x rest ih => exact absurd (List.cons.inj h).2 (gathered_ne_nil x rest)
  | case3 first n rest ih =>
    rcases ih h with ⟨-, rfl⟩ | hsub
    · exact Or.inr ⟨_, _, rfl⟩
    · exact Or.inr hsub

/-! ## Reading the items -/

def Begins (t : Token) : Prop :=
  Reading.binaryOp? t = none ∧ ∀ r : Reading, (r.begin? t).isSome

inductive ReadsNext : List Token → Next → Prop
  | item {t : Token} {ts : List Token} {e : Expr} (hb : Begins t) (h : Stands (t :: ts) e) :
    ReadsNext (t :: ts) (.item e)
  | less (n : Number) : ReadsNext [.symbol .minus, .number n] (.less n)

def rowed (before : List Expr) (frames : List Frame) : List Frame :=
  match before with
  | [] => frames
  | before => .spaced before :: frames

theorem closeOperators_rowed {frames : List Frame} (hf : isFloor frames = true)
    (before : List Expr) (level : Nat) (e : Expr) :
    closeOperators level (rowed before frames) e = (rowed before frames, e) := by
  cases before with
  | nil => exact Reading.closeOperators_floor hf e
  | cons x before => rfl

theorem closeItem_rowed {inner frames : List Frame} {operand last : Expr}
    (hf : isFloor frames = true) {before : List Expr}
    (h : closeOperators 0 inner operand = (rowed before frames, last)) :
    closeItem inner operand = (frames, inRow (last :: before).reverse) := by
  cases before with
  | nil =>
    have hitem := Reading.closeItem_floor hf last
    rw [closeItem, Reading.closeOperators_floor hf] at hitem
    rw [closeItem, h]
    exact hitem
  | cons x before =>
    rw [closeItem, h, inRow_eq_list (by simp)]
    rfl

theorem push?_begins {t : Token} (ht : Begins t) {inner frames : List Frame}
    {operand last : Expr} (hf : isFloor frames = true) {before : List Expr}
    (h : closeOperators 0 inner operand = (rowed before frames, last)) :
    Reading.push? ⟨inner, .operand operand, none⟩ t =
      Reading.push? ⟨rowed (last :: before) frames, .nothing, none⟩ t := by
  obtain ⟨hop, hbegin⟩ := ht
  have hnext : Reading.continue? ⟨inner, .operand operand, none⟩ operand t =
      Reading.nextItem? ⟨inner, .operand operand, none⟩ operand t := by
    simp only [Reading.continue?, hop]
    cases t with
    | symbol symbol =>
      cases symbol with
      | comma | colon | closeParen | closeBracket | ellipsis => cases hbegin .start
      | _ => rfl
    | _ => rfl
  have hitem : Reading.nextItem? ⟨inner, .operand operand, none⟩ operand t =
      Reading.begin? ⟨rowed (last :: before) frames, .nothing, none⟩ t := by
    simp only [Reading.nextItem?, h]
    -- A row that has begun takes the item up, and where none has a new one begins with it.
    cases before with
    | nil =>
      rcases frames with _ | ⟨frame, frames⟩
      · rfl
      · cases frame <;> first | rfl | cases hf
    | cons x before => rfl
  have hpush : Reading.push? ⟨inner, .operand operand, none⟩ t =
      Reading.begin? ⟨rowed (last :: before) frames, .nothing, none⟩ t := hnext.trans hitem
  rw [hpush]
  obtain ⟨s, hs⟩ := Option.isSome_iff_exists.mp
    (hbegin ⟨rowed (last :: before) frames, .nothing, none⟩)
  simp only [Reading.push?, hs, Option.some_or]

theorem reads_nexts {tss : List (List Token)} {nexts : List Next}
    (h : List.Forall₂ ReadsNext tss nexts) {frames inner : List Frame} (hf : isFloor frames = true)
    {operand last : Expr} {before : List Expr}
    (hc : ∀ level ≤ BinaryOp.level .sub,
      closeOperators level inner operand = (rowed before frames, last)) :
    ∃ inner' operand', pushAll Reading.push? ⟨inner, .operand operand, none⟩ tss.flatten =
        some ⟨inner', .operand operand', none⟩ ∧
      closeItem inner' operand' = (frames, inRow (before.reverse ++ gathered last nexts)) := by
  induction h generalizing inner operand last before with
  | nil =>
    refine ⟨inner, operand, rfl, ?_⟩
    rw [closeItem_rowed hf (hc 0 (Nat.zero_le _)), List.reverse_cons]
    rfl
  | @cons ts next tss nexts hnext hrest ih =>
    cases hnext with
    | @item t ts e hb hs =>
      have hpush := push?_begins hb hf (hc 0 (Nat.zero_le _))
      have hitem : pushAll Reading.push? ⟨inner, .operand operand, none⟩ (t :: ts) =
          some ⟨rowed (last :: before) frames, .operand e, none⟩ := by
        rw [pushAll_cons, hpush, ← pushAll_cons, hs]
      obtain ⟨inner', operand', hp, hclose⟩ :=
        ih fun level _ => closeOperators_rowed hf (last :: before) level e
      refine ⟨inner', operand', ?_, ?_⟩
      · rw [List.flatten_cons, pushAll_append, hitem, Option.bind_some, hp]
      · rw [hclose, gathered, List.reverse_cons, List.append_assoc, List.singleton_append]
    | less n =>
      -- Between operands a minus is that of a difference, whose left side is the item before it.
      have hless : pushAll Reading.push? ⟨inner, .operand operand, none⟩
          [.symbol .minus, .number n] =
            some ⟨.binary last .sub :: rowed before frames, .operand (.literal (.number n)),
              none⟩ := by
        have hminus : Reading.push? ⟨inner, .operand operand, none⟩ (.symbol .minus) =
            some ⟨.binary last .sub :: rowed before frames, .nothing, none⟩ := by
          simp only [Reading.push?, Reading.continue?, Reading.binaryOp?]
          rw [hc _ (Nat.le_refl _)]
        rw [pushAll_cons, hminus]
        rfl
      have hclose (level : Nat) (hl : level ≤ BinaryOp.level .sub) :
          closeOperators level (.binary last .sub :: rowed before frames) (.literal (.number n)) =
            (rowed before frames, .binary .sub last (.literal (.number n))) := by
        rw [closeOperators, if_pos hl, closeOperators_rowed hf]
      obtain ⟨inner', operand', hp, hrow⟩ := ih hclose
      refine ⟨inner', operand', ?_, hrow⟩
      rw [List.flatten_cons, pushAll_append, hless, Option.bind_some, hp]

theorem reads_row {ts : List Token} {e : Expr} {tss : List (List Token)} {nexts : List Next}
    (hfirst : Stands ts e ∨ ∃ n, ts = [.symbol .minus, .number n] ∧
      e = .unary .minus (.literal (.number n)))
    (h : List.Forall₂ ReadsNext tss nexts) :
    Reads (ts ++ tss.flatten) (inRow (gathered e nexts)) := by
  intro frames hf
  rcases hfirst with hs | ⟨n, rfl, rfl⟩
  · have hclose (level : Nat) (_ : level ≤ BinaryOp.level .sub) :
        closeOperators level frames e = (rowed [] frames, e) := closeOperators_rowed hf [] level e
    obtain ⟨inner, operand, hp, hc⟩ := reads_nexts h hf hclose
    refine ⟨inner, operand, ?_, hc⟩
    rw [pushAll_append, hs, Option.bind_some]
    exact hp
  · have hclose (level : Nat) (_ : level ≤ BinaryOp.level .sub) :
        closeOperators level (.unary .minus :: frames) (.literal (.number n)) =
          (rowed [] frames, .unary .minus (.literal (.number n))) := by
      rw [closeOperators]
      exact closeOperators_rowed hf [] level _
    obtain ⟨inner, operand, hp, hc⟩ := reads_nexts h hf hclose
    exact ⟨inner, operand, hp, hc⟩

/-! ## Texts -/

theorem Lexes.row {x : List Char} {ts : List Token} {texts : List (List Char)}
    {tss : List (List Token)} (hx : Lexes x ts) (h : List.Forall₂ Lexes texts tss) :
    Lexes (List.intercalate [' '] (x :: texts)) (ts ++ tss.flatten) := by
  induction h generalizing x ts with
  | nil => simpa using hx
  | @cons y us texts tss hy hrest ih =>
    have hspaced := hx.spaced (ih hy)
    simpa [List.intercalate_cons_cons] using hspaced

end SassData.Source
