/-
**The catalog in the order of names.**

The file sets of a catalog stand in the order of their names, no name twice.  In such a list putting
a set in its place replaces the set of its name and keeps all others, and a set is found by its name
exactly if it is there.

Main definitions:

* `FileDirectory.Catalog.Ordered` — file sets in the order of their names.

Main results:

* `FileDirectory.Catalog.Ordered.insertSet`, `FileDirectory.Catalog.mem_insertSet` — a set put in its
  place;
* `FileDirectory.Catalog.mem_sets_put`, `FileDirectory.Catalog.find?_put` — the catalog after a set
  was put into it;
* `FileDirectory.Catalog.find?_eq_some_iff` — what is found by a name.
-/

import FileDirectory.Catalog
import FileDirectory.Proofs.Keyed

set_option autoImplicit false

namespace FileDirectory

/-! ### Names are ordered -/

instance : Std.TransOrd SetName :=
  inferInstanceAs (Std.TransCmp (compareLex (compareOn SetName.qualifier)
    (compareOn SetName.filename)))

instance : Std.LawfulEqOrd SetName where
  eq_of_compare {a b} h := by
    have hlex : ((compare a.qualifier b.qualifier).then (compare a.filename b.filename)) = .eq := h
    rw [Ordering.then_eq_eq] at hlex
    obtain ⟨hq, hf⟩ := hlex
    cases a
    cases b
    rw [SetName.mk.injEq]
    exact ⟨Std.LawfulEqOrd.eq_of_compare hq, Std.LawfulEqOrd.eq_of_compare hf⟩

instance : Std.TransOrd CycleKey :=
  inferInstanceAs (Std.TransCmp (compareLex (compareOn CycleKey.set) (compareOn CycleKey.cycle)))

instance : Std.LawfulEqOrd CycleKey where
  eq_of_compare {a b} h := by
    have hlex : ((compare a.set b.set).then (compare a.cycle b.cycle)) = .eq := h
    rw [Ordering.then_eq_eq] at hlex
    obtain ⟨hs, hc⟩ := hlex
    cases a
    cases b
    rw [CycleKey.mk.injEq]
    exact ⟨Std.LawfulEqOrd.eq_of_compare hs, Std.LawfulEqOrd.eq_of_compare hc⟩

theorem SetName.ne_of_lt {a b : SetName} (h : compare a b = .lt) : a ≠ b := by
  intro heq
  subst heq
  rw [Std.ReflOrd.compare_self] at h
  cases h

namespace Catalog

/-! ### File sets in the order of their names -/

/-- File sets in the order of their names, no name twice. -/
def Ordered (sets : List FileSet) : Prop := sets.Pairwise fun a b => compare a.name b.name = .lt

theorem Ordered.tail {set : FileSet} {sets : List FileSet} (h : Ordered (set :: sets)) :
    Ordered sets := (List.pairwise_cons.1 h).2

theorem Ordered.head_lt {set other : FileSet} {sets : List FileSet} (h : Ordered (set :: sets))
    (hother : other ∈ sets) : compare set.name other.name = .lt :=
  (List.pairwise_cons.1 h).1 other hother

/-- Two sets of one name are the same. -/
theorem Ordered.eq_of_name_eq {sets : List FileSet} (h : Ordered sets) {a b : FileSet}
    (ha : a ∈ sets) (hb : b ∈ sets) (hname : a.name = b.name) : a = b := by
  induction sets with
  | nil => cases ha
  | cons set sets ih =>
      rcases List.mem_cons.1 ha with rfl | hatail <;> rcases List.mem_cons.1 hb with rfl | hbtail
      · rfl
      · exact absurd hname (SetName.ne_of_lt (h.head_lt hbtail))
      · exact absurd hname.symm (SetName.ne_of_lt (h.head_lt hatail))
      · exact ih h.tail hatail hbtail

theorem Ordered.nodup_names {sets : List FileSet} (h : Ordered sets) :
    (sets.map FileSet.name).Nodup :=
  List.pairwise_map.2 (List.Pairwise.imp (fun hlt => SetName.ne_of_lt hlt) h)

/-! ### Putting a set in its place -/

/-- The sets after one was put in its place: that one, and all others of other names. -/
theorem mem_insertSet {set : FileSet} {sets : List FileSet} (h : Ordered sets) {s : FileSet} :
    s ∈ insertSet set sets ↔ s = set ∨ s ∈ sets ∧ s.name ≠ set.name := by
  induction sets with
  | nil => simp [insertSet]
  | cons other rest ih =>
      rw [insertSet]
      cases hcmp : compare set.name other.name with
      | lt =>
          -- every name of the list comes after that of the set
          have hafter : ∀ t ∈ other :: rest, t.name ≠ set.name := by
            intro t ht
            rcases List.mem_cons.1 ht with rfl | ht
            · exact (SetName.ne_of_lt hcmp).symm
            · exact (SetName.ne_of_lt (Std.TransCmp.lt_trans hcmp (h.head_lt ht))).symm
          rw [List.mem_cons]
          exact or_congr_right ⟨fun hs => ⟨hs, hafter s hs⟩, And.left⟩
      | eq =>
          have heq : set.name = other.name := Std.LawfulEqOrd.eq_of_compare hcmp
          rw [List.mem_cons]
          refine or_congr_right ⟨?_, ?_⟩
          · intro hs
            exact ⟨List.mem_cons_of_mem _ hs, heq ▸ (SetName.ne_of_lt (h.head_lt hs)).symm⟩
          · rintro ⟨hs, hne⟩
            rcases List.mem_cons.1 hs with rfl | hs
            · exact absurd heq.symm hne
            · exact hs
      | gt =>
          have hlt : compare other.name set.name = .lt := Std.OrientedCmp.gt_iff_lt.1 hcmp
          rw [List.mem_cons, ih h.tail]
          constructor
          · rintro (rfl | rfl | ⟨hs, hne⟩)
            · exact Or.inr ⟨List.mem_cons_self, SetName.ne_of_lt hlt⟩
            · exact Or.inl rfl
            · exact Or.inr ⟨List.mem_cons_of_mem _ hs, hne⟩
          · rintro (rfl | ⟨hs, hne⟩)
            · exact Or.inr (Or.inl rfl)
            · rcases List.mem_cons.1 hs with rfl | hs
              · exact Or.inl rfl
              · exact Or.inr (Or.inr ⟨hs, hne⟩)

/-- Putting a set in its place keeps the order. -/
theorem Ordered.insertSet {sets : List FileSet} (h : Ordered sets) (set : FileSet) :
    Ordered (insertSet set sets) := by
  induction sets with
  | nil => exact List.pairwise_singleton _ _
  | cons other rest ih =>
      rw [Catalog.insertSet]
      cases hcmp : compare set.name other.name with
      | lt =>
          refine List.pairwise_cons.2 ⟨?_, h⟩
          intro t ht
          rcases List.mem_cons.1 ht with rfl | ht
          · exact hcmp
          · exact Std.TransCmp.lt_trans hcmp (h.head_lt ht)
      | eq =>
          have heq : set.name = other.name := Std.LawfulEqOrd.eq_of_compare hcmp
          refine List.pairwise_cons.2 ⟨?_, h.tail⟩
          intro t ht
          rw [heq]
          exact h.head_lt ht
      | gt =>
          refine List.pairwise_cons.2 ⟨?_, ih h.tail⟩
          intro t ht
          rcases (mem_insertSet h.tail).1 ht with rfl | ⟨ht, -⟩
          · exact Std.OrientedCmp.gt_iff_lt.1 hcmp
          · exact h.head_lt ht

/-! ### Looking up -/

/-- A set is found by a name exactly if it is one of the catalog and has the name. -/
theorem find?_eq_some_iff {c : Catalog} (h : Ordered c.sets) {name : SetName} {set : FileSet} :
    c.find? name = some set ↔ set ∈ c.sets ∧ set.name = name := by
  constructor
  · intro hfind
    exact ⟨List.mem_of_find?_eq_some hfind, by simpa using List.find?_some hfind⟩
  · rintro ⟨hmem, hname⟩
    cases hfind : c.find? name with
    | none =>
        have hnone := List.find?_eq_none.1 hfind set hmem
        simp [hname] at hnone
    | some other =>
        have hother : other ∈ c.sets := List.mem_of_find?_eq_some hfind
        have hothername : other.name = name := by simpa using List.find?_some hfind
        rw [h.eq_of_name_eq hother hmem (hothername.trans hname.symm)]

theorem find?_eq_none_iff {c : Catalog} {name : SetName} :
    c.find? name = none ↔ ∀ set ∈ c.sets, set.name ≠ name := by
  simp [find?]

/-! ### The catalog after a set was put into it -/

@[simp] theorem config_put (c : Catalog) (set : FileSet) : (c.put set).config = c.config := by
  unfold put; split <;> rfl

@[simp] theorem space_put (c : Catalog) (set : FileSet) : (c.put set).space = c.space := by
  unfold put; split <;> rfl

@[simp] theorem lastFile_put (c : Catalog) (set : FileSet) : (c.put set).lastFile = c.lastFile := by
  unfold put; split <;> rfl

/-- Putting a set into a catalog keeps the order. -/
theorem ordered_put {c : Catalog} (h : Ordered c.sets) (set : FileSet) :
    Ordered (c.put set).sets := by
  unfold put
  split
  · exact List.Pairwise.filter _ h
  · exact h.insertSet set

/-- The sets after one was put into a catalog: that one, if it has a cycle, and all others of other
names. -/
theorem mem_sets_put {c : Catalog} (h : Ordered c.sets) {set s : FileSet} :
    s ∈ (c.put set).sets ↔ (s = set ∧ set.cycles ≠ []) ∨ s ∈ c.sets ∧ s.name ≠ set.name := by
  unfold put
  by_cases hempty : set.cycles = []
  · simp [hempty]
  · simp [hempty, mem_insertSet h]

/-- What holds of all sets of a catalog, and of one that is put into it, holds of all afterwards. -/
theorem forall_sets_put {c : Catalog} (h : Ordered c.sets) {P : FileSet → Prop}
    (hall : ∀ s ∈ c.sets, P s) {set : FileSet} (hset : P set) {space : FreeSpace} {last : Nat} :
    ∀ s ∈ ({ c with space := space, lastFile := last }.put set).sets, P s := by
  intro s hs
  rcases (mem_sets_put (c := { c with space := space, lastFile := last }) h).1 hs with ⟨rfl, -⟩ | ⟨hs, -⟩
  · exact hset
  · exact hall s hs

/-- Sets of other names are in a catalog after one was put into it as they were before. -/
theorem mem_sets_put_of_ne {c : Catalog} (h : Ordered c.sets) {set s : FileSet}
    (hne : s.name ≠ set.name) : s ∈ (c.put set).sets ↔ s ∈ c.sets := by
  rw [mem_sets_put h]
  constructor
  · rintro (⟨rfl, -⟩ | ⟨hs, -⟩)
    · exact absurd rfl hne
    · exact hs
  · intro hs
    exact Or.inr ⟨hs, hne⟩

/-- A set that was put into a catalog is found by its name, if it has a cycle; what other names find
stays the same. -/
theorem find?_put {c : Catalog} (h : Ordered c.sets) (set : FileSet) (name : SetName) :
    (c.put set).find? name =
      if name = set.name then (if set.cycles = [] then none else some set) else c.find? name := by
  have hput := ordered_put h set
  by_cases hname : name = set.name
  · subst hname
    rw [if_pos rfl]
    split
    · rename_i hempty
      rw [find?_eq_none_iff]
      intro s hs
      rcases (mem_sets_put h).1 hs with ⟨-, hne⟩ | ⟨-, hne⟩
      · exact absurd hempty hne
      · exact hne
    · rename_i hcycles
      exact (find?_eq_some_iff hput).2 ⟨(mem_sets_put h).2 (Or.inl ⟨rfl, hcycles⟩), rfl⟩
  · rw [if_neg hname]
    refine Option.ext ?_
    intro s
    rw [find?_eq_some_iff hput, find?_eq_some_iff h, mem_sets_put h]
    constructor
    · rintro ⟨⟨rfl, -⟩ | ⟨hs, -⟩, hs'⟩
      · exact absurd hs'.symm hname
      · exact ⟨hs, hs'⟩
    · rintro ⟨hs, hs'⟩
      exact ⟨Or.inr ⟨hs, hs' ▸ hname⟩, hs'⟩

end Catalog

end FileDirectory
