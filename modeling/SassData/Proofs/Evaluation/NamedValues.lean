import SassData.Named

/-!
# Names that are put and taken out

To give a name a thing for the second time is to forget the first: of what is put under names,
all is there exactly if no name comes up twice. A name that is there once is taken out from among
the others.
-/

namespace SassData

set_option autoImplicit false

namespace Named

variable {α : Type} {names : Named α} {name : String} {a : α}

/-! ## Taking out -/

theorem remove_cons (entry : String × α) :
    remove name (entry :: names) =
      if entry.1 = name then remove name names else entry :: remove name names := by
  by_cases h : entry.1 = name <;> simp [remove, h]

theorem remove_of_not_mem (h : name ∉ names.map Prod.fst) : remove name names = names := by
  refine List.filter_eq_self.mpr fun pair hp => bne_iff_ne.mpr ?_
  rintro rfl
  exact h (List.mem_map_of_mem hp)

theorem perm_remove (hnodup : (names.map Prod.fst).Nodup) (h : names.get? name = some a) :
    ((name, a) :: remove name names).Perm names := by
  induction names with
  | nil => cases h
  | cons entry rest ih =>
    obtain ⟨hfresh, hrest⟩ := List.nodup_cons.mp hnodup
    rw [get?] at h
    rw [remove_cons]
    split at h
    · next hn =>
      cases h
      obtain rfl := beq_iff_eq.mp hn
      rw [if_pos rfl, remove_of_not_mem hfresh]
    · next hn =>
      rw [if_neg (mt beq_iff_eq.mpr hn)]
      exact (List.Perm.swap _ _ _).trans ((ih hrest h).cons _)

theorem get?_eq_none_iff : names.get? name = none ↔ name ∉ names.map Prod.fst := by
  induction names with
  | nil => simp [get?]
  | cons entry rest ih =>
    rw [get?, List.map_cons, List.mem_cons, not_or]
    split
    · next hn =>
      obtain rfl := beq_iff_eq.mp hn
      simp
    · next hn =>
      rw [ih]
      exact (and_iff_right fun he => hn (beq_iff_eq.mpr he.symm)).symm

theorem mem_of_get? (h : names.get? name = some a) : name ∈ names.map Prod.fst := by
  refine Classical.byContradiction fun hm => ?_
  rw [get?_eq_none_iff.mpr hm] at h
  cases h

theorem mem_remove_iff {other : String} :
    other ∈ (remove name names).map Prod.fst ↔ other ≠ name ∧ other ∈ names.map Prod.fst := by
  simp only [remove, List.mem_map, List.mem_filter, bne_iff_ne]
  constructor
  · rintro ⟨entry, ⟨hm, hn⟩, rfl⟩
    exact ⟨hn, entry, hm, rfl⟩
  · rintro ⟨hn, entry, hm, rfl⟩
    exact ⟨entry, ⟨hm, hn⟩, rfl⟩

theorem get?_remove (other : String) :
    (remove name names).get? other = if name = other then none else names.get? other := by
  induction names with
  | nil => simp [remove, get?]
  | cons entry rest ih =>
    rw [remove_cons, get?]
    by_cases h : entry.1 = name
    · subst h
      rw [if_pos rfl, ih]
      by_cases ho : entry.1 = other <;> simp [ho]
    · rw [if_neg h, get?, ih]
      by_cases ho : entry.1 = other
      · subst ho
        simp [Ne.symm h]
      · simp [ho]

theorem nodup_remove (h : (names.map Prod.fst).Nodup) :
    ((remove name names).map Prod.fst).Nodup :=
  h.sublist (List.filter_sublist.map _)

/-! ## Putting -/

def putAll (names : Named α) (pairs : List (String × α)) : Named α :=
  pairs.foldl (fun names (name, a) => names.put name a) names

theorem putAll_cons {rest : List (String × α)} :
    names.putAll ((name, a) :: rest) = (names.put name a).putAll rest := rfl

theorem mem_put_iff {name other : String} :
    other ∈ (names.put name a).map Prod.fst ↔ other = name ∨ other ∈ names.map Prod.fst := by
  induction names with
  | nil => simp [put]
  | cons entry rest ih =>
    rw [put]
    split
    · next hn =>
      obtain rfl := beq_iff_eq.mp hn
      simp
    · rw [List.map_cons, List.mem_cons, ih, List.map_cons, List.mem_cons]
      exact or_left_comm

theorem nodup_put (h : (names.map Prod.fst).Nodup) :
    ((names.put name a).map Prod.fst).Nodup := by
  induction names with
  | nil => simp [put]
  | cons entry rest ih =>
    obtain ⟨hfresh, hrest⟩ := List.nodup_cons.mp h
    rw [put]
    split
    · exact h
    · next hn =>
      refine List.nodup_cons.mpr ⟨?_, ih hrest⟩
      rw [mem_put_iff, not_or]
      exact ⟨mt beq_iff_eq.mpr hn, hfresh⟩

theorem nodup_putAll {pairs : List (String × α)} (h : (names.map Prod.fst).Nodup) :
    ((names.putAll pairs).map Prod.fst).Nodup := by
  induction pairs generalizing names with
  | nil => exact h
  | cons pair rest ih => exact ih (nodup_put h)

theorem put_of_not_mem (h : name ∉ names.map Prod.fst) :
    names.put name a = names ++ [(name, a)] := by
  induction names with
  | nil => rfl
  | cons entry rest ih =>
    rw [List.map_cons, List.mem_cons, not_or] at h
    rw [put, if_neg (mt beq_iff_eq.mp (Ne.symm h.1)), ih h.2]
    rfl

theorem map_fst_put_of_mem (h : name ∈ names.map Prod.fst) :
    (names.put name a).map Prod.fst = names.map Prod.fst := by
  induction names with
  | nil => cases h
  | cons entry rest ih =>
    rw [put]
    split
    · rfl
    · next hn =>
      rcases List.mem_cons.mp h with rfl | h
      · exact absurd (beq_iff_eq.mpr rfl) hn
      · rw [List.map_cons, ih h, List.map_cons]

theorem length_put_of_mem (h : name ∈ names.map Prod.fst) :
    (names.put name a).length = names.length := by
  simpa using congrArg List.length (map_fst_put_of_mem (a := a) h)

theorem length_put_le : (names.put name a).length ≤ names.length + 1 := by
  by_cases h : name ∈ names.map Prod.fst
  · rw [length_put_of_mem h]
    exact Nat.le_succ _
  · rw [put_of_not_mem h, List.length_append]
    exact Nat.le_refl _

theorem length_putAll_le {pairs : List (String × α)} :
    (names.putAll pairs).length ≤ names.length + pairs.length := by
  induction pairs generalizing names with
  | nil => exact Nat.le_refl _
  | cons pair rest ih =>
    have hrest := @ih (names.put pair.1 pair.2)
    have hput := @length_put_le _ names pair.1 pair.2
    rw [putAll_cons, List.length_cons]
    omega

/-- Nothing is forgotten exactly if no name is given twice. -/
theorem length_putAll_iff {pairs : List (String × α)} (h : (names.map Prod.fst).Nodup) :
    (names.putAll pairs).length = names.length + pairs.length ↔
      ((names ++ pairs).map Prod.fst).Nodup := by
  induction pairs generalizing names with
  | nil => simpa [putAll] using h
  | cons pair rest ih =>
    obtain ⟨name, a⟩ := pair
    by_cases hn : name ∈ names.map Prod.fst
    · have hle := @length_putAll_le _ (names.put name a) rest
      rw [length_put_of_mem hn] at hle
      refine iff_of_false ?_ ?_
      · rw [putAll_cons, List.length_cons]
        omega
      · rw [List.map_append, List.nodup_append]
        rintro ⟨-, -, hapart⟩
        exact hapart name hn name List.mem_cons_self rfl
    · have hput := put_of_not_mem (a := a) hn
      have hrest := @ih (names.put name a) (nodup_put h)
      rw [hput, List.append_assoc, List.singleton_append, List.length_append] at hrest
      rw [← hrest, putAll_cons, hput, List.length_cons, List.length_singleton, Nat.add_assoc,
        Nat.add_comm 1]

theorem putAll_of_nodup {pairs : List (String × α)}
    (h : ((names ++ pairs).map Prod.fst).Nodup) : names.putAll pairs = names ++ pairs := by
  induction pairs generalizing names with
  | nil => rw [putAll, List.foldl_nil, List.append_nil]
  | cons pair rest ih =>
    obtain ⟨name, a⟩ := pair
    have hn : name ∉ names.map Prod.fst := by
      rw [List.map_append, List.nodup_append] at h
      intro hm
      exact h.2.2 _ hm _ List.mem_cons_self rfl
    have hrest := @ih (names.put name a)
    rw [put_of_not_mem hn, List.append_assoc, List.singleton_append] at hrest
    rw [putAll_cons, put_of_not_mem hn, hrest h]

end Named

end SassData
