/-
**Lists that are told apart by a key.**

The file sets of a catalog, the cycles of a placement and the records of a medium are lists whose
items are told apart by a key.  Under a key of which no two items share a value, an item is found
exactly if it is listed, sorting is unique, and the items can be sorted out by their keys.

Main results:

* `FileDirectory.lookup_eq_some_iff`, `FileDirectory.filter_key_eq` — what is listed under a key;
* `FileDirectory.perm_flatMap_filter` — the items of some keys, key by key;
* `FileDirectory.head?_mergeSort` — what comes first when a list is sorted by a number;
* `FileDirectory.pairwise_lt_mergeSort`, `FileDirectory.mergeSort_eq_of_perm`,
  `FileDirectory.eq_of_pairwise_lt`, `FileDirectory.eq_flatMap_filter` — sorting by a key.
-/

import Mathlib.Data.List.Nodup
import Mathlib.Data.List.Perm.Basic

set_option autoImplicit false

namespace FileDirectory

/-! ### Looking up by a key -/

/-- What is found by a key is what is listed under it, if no key is listed twice. -/
theorem lookup_eq_some_iff {α β : Type} [DecidableEq α] {l : List (α × β)}
    (h : (l.map Prod.fst).Nodup) {a : α} {b : β} : l.lookup a = some b ↔ (a, b) ∈ l := by
  induction l with
  | nil => simp
  | cons entry l ih =>
      obtain ⟨key, value⟩ := entry
      obtain ⟨hout, hrest⟩ := List.nodup_cons.1 h
      rw [List.lookup_cons, List.mem_cons]
      by_cases heq : a = key
      · subst heq
        have hnone : (a, b) ∉ l := fun hin => hout (List.mem_map.2 ⟨_, hin, rfl⟩)
        simp [hnone, eq_comm]
      · have hne : (a == key) = false := by simpa using heq
        simp [hne, heq, ih hrest]

/-- Nothing is found by a key that is not listed. -/
theorem lookup_eq_none {α β : Type} [DecidableEq α] {l : List (α × β)} {a : α}
    (h : a ∉ l.map Prod.fst) : l.lookup a = none := by
  rw [List.lookup_eq_none_iff]
  intro entry hentry
  have hne : a ≠ entry.1 := fun heq => h (heq ▸ List.mem_map_of_mem hentry)
  simpa using hne

/-- The items under a key, if no key is listed twice. -/
theorem filter_key_eq {α β : Type} [DecidableEq α] {l : List (α × β)} (h : (l.map Prod.fst).Nodup)
    (a : α) : (l.filter fun entry => entry.1 = a) = ((l.lookup a).map (a, ·)).toList := by
  induction l with
  | nil => rfl
  | cons entry l ih =>
      obtain ⟨key, value⟩ := entry
      obtain ⟨hout, hrest⟩ := List.nodup_cons.1 h
      by_cases heq : key = a
      · subst heq
        have hnone : l.filter (fun entry => entry.1 = key) = [] := by
          rw [List.filter_eq_nil_iff]
          intro entry hentry hkey
          exact hout (List.mem_map.2 ⟨entry, hentry, of_decide_eq_true hkey⟩)
        simp [hnone]
      · have hne : (a == key) = false := by simpa using Ne.symm heq
        rw [List.filter_cons_of_neg (by simpa using heq), ih hrest, List.lookup_cons, hne]

/-- Leaving entries out does not change what is found by a key that stays. -/
theorem lookup_filter {α β : Type} [DecidableEq α] (l : List (α × β)) {p : α → Bool} {a : α}
    (h : p a = true) : (l.filter fun entry => p entry.1).lookup a = l.lookup a := by
  induction l with
  | nil => rfl
  | cons entry l ih =>
      obtain ⟨key, value⟩ := entry
      by_cases hkey : p key = true
      · rw [List.filter_cons, if_pos hkey, List.lookup_cons, List.lookup_cons, ih]
      · have hne : (a == key) = false := by
          have hdiff : a ≠ key := fun heq => hkey (heq ▸ h)
          simpa using hdiff
        rw [List.filter_cons, if_neg hkey, ih, List.lookup_cons, hne]

theorem lookup_filter_ne {α β : Type} [DecidableEq α] (l : List (α × β)) {name other : α}
    (h : other ≠ name) : (l.filter fun entry => entry.1 ≠ name).lookup other = l.lookup other :=
  lookup_filter l (p := fun key => key ≠ name) (by simpa using h)

/-- What one of several lists put together has under its key. -/
theorem filter_flatMap_self {α β γ : Type} [DecidableEq γ] {l : List α} {f : α → List β}
    {key : α → γ} {group : β → γ} (h : ∀ a ∈ l, ∀ b ∈ f a, group b = key a)
    (hnodup : (l.map key).Nodup) {a : α} (ha : a ∈ l) :
    (l.flatMap f).filter (fun b => group b = key a) = f a := by
  induction l with
  | nil => cases ha
  | cons a' l ih =>
      obtain ⟨hout, hrest⟩ := List.nodup_cons.1 hnodup
      have htail : ∀ a ∈ l, ∀ b ∈ f a, group b = key a :=
        fun a ha => h a (List.mem_cons_of_mem _ ha)
      rw [List.flatMap_cons, List.filter_append]
      rcases List.mem_cons.1 ha with rfl | ha
      · have hself : (f a).filter (fun b => group b = key a) = f a :=
          List.filter_eq_self.2 fun b hb => decide_eq_true (h a List.mem_cons_self b hb)
        have hothers : (l.flatMap f).filter (fun b => group b = key a) = [] := by
          refine List.filter_eq_nil_iff.2 ?_
          intro b hb heq
          obtain ⟨a', ha', hin⟩ := List.mem_flatMap.1 hb
          refine hout (List.mem_map.2 ⟨a', ha', ?_⟩)
          rw [← htail a' ha' b hin]
          exact of_decide_eq_true heq
        rw [hself, hothers, List.append_nil]
      · have hother : (f a').filter (fun b => group b = key a) = [] := by
          refine List.filter_eq_nil_iff.2 ?_
          intro b hb heq
          refine hout (List.mem_map.2 ⟨a, ha, ?_⟩)
          rw [← of_decide_eq_true heq]
          exact h a' List.mem_cons_self b hb
        rw [hother, ih htail hrest ha, List.nil_append]

/-- Items sorted out by a key, for each of some keys in turn. -/
theorem perm_flatMap_filter {α β : Type} [DecidableEq β] (key : α → β) (items : List α)
    {keys : List β} (h : keys.Nodup) :
    (keys.flatMap fun k => items.filter fun a => key a = k).Perm
      (items.filter fun a => key a ∈ keys) := by
  induction keys with
  | nil => simp
  | cons k keys ih =>
      obtain ⟨hout, hrest⟩ := List.nodup_cons.1 h
      rw [List.flatMap_cons]
      refine ((ih hrest).append_left _).trans ?_
      have hsplit := List.filter_append_perm (fun a => decide (key a = k))
        (items.filter fun a => key a ∈ k :: keys)
      rw [List.filter_filter, List.filter_filter] at hsplit
      refine List.Perm.trans ?_ hsplit
      refine List.Perm.append (List.Perm.of_eq ?_) (List.Perm.of_eq ?_)
      · refine List.filter_congr ?_
        intro a _
        by_cases heq : key a = k <;> simp [heq]
      · refine List.filter_congr ?_
        intro a _
        by_cases heq : key a = k <;> simp [heq, hout]

/-! ### Sorting by a number -/

section Numbers

variable {α : Type} {key : α → Nat}

theorem pairwise_mergeSort_le (l : List α) :
    (l.mergeSort fun a b => key a ≤ key b).Pairwise fun a b => key a ≤ key b := by
  refine (List.pairwise_mergeSort ?_ ?_ l).imp of_decide_eq_true
  · intro a b c hab hbc
    exact decide_eq_true (Nat.le_trans (of_decide_eq_true hab) (of_decide_eq_true hbc))
  · intro a b
    simpa using Nat.le_total (key a) (key b)

/-- An item that belongs before every other one comes first when a list is sorted. -/
theorem head?_mergeSort {l : List α} {a : α} (ha : a ∈ l)
    (hfirst : ∀ b ∈ l, b ≠ a → key a < key b) :
    (l.mergeSort fun a b => key a ≤ key b).head? = some a := by
  have hsorted : (l.mergeSort fun a b => key a ≤ key b).Pairwise fun a b => key a ≤ key b :=
    pairwise_mergeSort_le l
  have hmem : ∀ b, b ∈ l.mergeSort (fun a b => key a ≤ key b) ↔ b ∈ l := fun b => List.mem_mergeSort
  cases hlist : l.mergeSort fun a b => key a ≤ key b with
  | nil =>
      rw [hlist] at hmem
      exact absurd ((hmem a).2 ha) List.not_mem_nil
  | cons b rest =>
      rw [hlist] at hsorted hmem
      by_cases heq : b = a
      · rw [heq, List.head?_cons]
      · have hin := List.mem_of_ne_of_mem (Ne.symm heq) ((hmem a).2 ha)
        have hle := (List.pairwise_cons.1 hsorted).1 a hin
        have hlt := hfirst b ((hmem b).1 List.mem_cons_self) heq
        omega

end Numbers

/-! ### Sorting by a key that tells apart -/

section Sorting

variable {α β : Type} [Ord β] [Std.TransOrd β] [Std.LawfulEqOrd β] (key : α → β)

omit [Std.TransOrd β] in
theorem nodup_of_pairwise_lt {l : List α}
    (h : l.Pairwise fun a b => compare (key a) (key b) = .lt) : (l.map key).Nodup := by
  refine List.pairwise_map.2 (List.Pairwise.imp ?_ h)
  intro a b hlt heq
  rw [heq, Std.ReflOrd.compare_self] at hlt
  cases hlt

omit [Std.LawfulEqOrd β] in
theorem pairwise_le_mergeSort (l : List α) :
    (l.mergeSort fun a b => (compare (key a) (key b)).isLE).Pairwise
      fun a b => (compare (key a) (key b)).isLE = true := by
  refine List.pairwise_mergeSort ?_ ?_ l
  · intro a b c hab hbc
    exact Std.TransCmp.isLE_trans hab hbc
  · intro a b
    rw [Std.OrientedOrd.eq_swap (a := key b) (b := key a)]
    cases compare (key a) (key b) <;> rfl

/-- Sorting by a key that no two share puts the keys in strictly ascending order. -/
theorem pairwise_lt_mergeSort {l : List α} (h : (l.map key).Nodup) :
    (l.mergeSort fun a b => (compare (key a) (key b)).isLE).Pairwise
      fun a b => compare (key a) (key b) = .lt := by
  have hnodup : ((l.mergeSort fun a b => (compare (key a) (key b)).isLE).map key).Nodup :=
    ((List.mergeSort_perm l _).map key).nodup_iff.2 h
  refine ((pairwise_le_mergeSort key l).and (List.pairwise_map.1 hnodup)).imp ?_
  rintro a b ⟨hle, hne⟩
  cases hcmp : compare (key a) (key b) with
  | lt => rfl
  | eq => exact absurd (Std.LawfulEqOrd.eq_of_compare hcmp) hne
  | gt =>
      rw [hcmp] at hle
      cases hle

/-- A list in strictly ascending order is what sorting makes of its items. -/
theorem mergeSort_eq_of_perm {l l' : List α} (hperm : l.Perm l')
    (hsorted : l'.Pairwise fun a b => compare (key a) (key b) = .lt) :
    l.mergeSort (fun a b => (compare (key a) (key b)).isLE) = l' := by
  have hmem : ∀ a, a ∈ l.mergeSort (fun a b => (compare (key a) (key b)).isLE) → a ∈ l' := by
    intro a ha
    exact hperm.mem_iff.1 (List.mem_mergeSort.1 ha)
  refine List.Perm.eq_of_pairwise ?_ (pairwise_le_mergeSort key l) ?_
    ((List.mergeSort_perm l _).trans hperm)
  · intro a b ha hb hab hba
    refine List.inj_on_of_nodup_map (nodup_of_pairwise_lt key hsorted) (hmem a ha) hb ?_
    exact Std.LawfulEqOrd.eq_of_compare (Std.OrientedCmp.isLE_antisymm hab hba)
  · refine hsorted.imp ?_
    intro a b hlt
    rw [hlt]
    rfl

/-- Lists in strictly ascending order are the same if they have the same items. -/
theorem eq_of_pairwise_lt {l l' : List α} (h : l.Pairwise fun a b => compare (key a) (key b) = .lt)
    (h' : l'.Pairwise fun a b => compare (key a) (key b) = .lt) (hmem : ∀ a, a ∈ l ↔ a ∈ l') :
    l = l' := by
  have hperm : l.Perm l' := (List.perm_ext_iff_of_nodup (nodup_of_pairwise_lt key h).of_map
    (nodup_of_pairwise_lt key h').of_map).2 hmem
  exact (mergeSort_eq_of_perm key (List.Perm.refl l) h).symm.trans (mergeSort_eq_of_perm key hperm h')

/-- A list in strictly ascending order is put together from its parts under each of some keys, if
these stand in the same order and every item belongs to one of them. -/
theorem eq_flatMap_filter {γ : Type} [Ord γ] [Std.TransOrd γ] [Std.LawfulEqOrd γ] [DecidableEq γ]
    (group : α → γ) {l : List α} {groups : List γ}
    (hsorted : l.Pairwise fun a b => compare (key a) (key b) = .lt)
    (hgroups : groups.Pairwise fun a b => compare a b = .lt)
    (hall : ∀ a ∈ l, group a ∈ groups)
    (horder : ∀ a b, compare (group a) (group b) = .lt → compare (key a) (key b) = .lt) :
    l = groups.flatMap fun g => l.filter fun a => group a = g := by
  have hnodup : groups.Nodup := by
    have hkeys := nodup_of_pairwise_lt id hgroups
    rwa [List.map_id] at hkeys
  have hperm := perm_flatMap_filter group l hnodup
  have hfilter : (l.filter fun a => decide (group a ∈ groups)) = l :=
    List.filter_eq_self.2 fun a ha => decide_eq_true (hall a ha)
  rw [hfilter] at hperm
  refine (mergeSort_eq_of_perm key (List.Perm.refl l) hsorted).symm.trans ?_
  refine mergeSort_eq_of_perm key hperm.symm ?_
  refine List.pairwise_flatMap.2 ⟨fun g _ => hsorted.sublist List.filter_sublist, ?_⟩
  refine hgroups.imp ?_
  intro g g' hlt a ha b hb
  refine horder a b ?_
  rw [of_decide_eq_true (List.mem_filter.1 ha).2, of_decide_eq_true (List.mem_filter.1 hb).2]
  exact hlt

end Sorting

end FileDirectory
