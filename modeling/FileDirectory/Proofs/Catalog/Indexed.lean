/-
**Every cycle has an identifier of its own.**

File sets stand in the order of their names and none is without cycles.  No two cycles of a catalog
share an identifier, none has one beyond the last that was given out, and every cycle carries the
name of the file set that it is in.

Main definitions:

* `FileDirectory.FileSet.added` — a file set with a cycle added;
* `FileDirectory.Catalog.Indexed` — a catalog of which all that holds.

Main results:

* `FileDirectory.Catalog.Indexed.put` — putting a set in its place keeps it up, if the cycles of the
  set are those that it had or are new;
* `FileDirectory.Catalog.Step.indexed` — every step keeps it up.
-/

import FileDirectory.Proofs.Catalog.Step

set_option autoImplicit false

namespace FileDirectory

/-! ### The cycles of a set that was changed -/

namespace FileSet

/-- The identifiers of the cycles of a set, in their order. -/
def files (set : FileSet) : List FileId := set.cycles.map FileCycle.file

@[simp] theorem cycles_refresh (set : FileSet) : set.refresh.cycles = set.cycles := rfl

@[simp] theorem name_refresh (set : FileSet) : set.refresh.name = set.name := rfl

@[simp] theorem name_modify (set : FileSet) (file : FileId) (f : FileCycle → FileCycle) :
    (set.modify file f).name = set.name := rfl

@[simp] theorem name_erase (set : FileSet) (file : FileId) : (set.erase file).name = set.name := rfl

@[simp] theorem files_refresh (set : FileSet) : set.refresh.files = set.files := rfl

/-- The cycles of a set with the cycle of an identifier replaced. -/
theorem mem_cycles_modify {set : FileSet} {file : FileId} {after d : FileCycle} :
    d ∈ (set.modify file fun _ => after).cycles ↔
      (d = after ∧ file ∈ set.files) ∨ (d ∈ set.cycles ∧ d.file ≠ file) := by
  unfold modify files
  rw [List.mem_map]
  constructor
  · rintro ⟨e, he, rfl⟩
    by_cases hfile : e.file = file
    · rw [if_pos hfile]
      exact Or.inl ⟨rfl, List.mem_map.2 ⟨e, he, hfile⟩⟩
    · rw [if_neg hfile]
      exact Or.inr ⟨he, hfile⟩
  · rintro (⟨rfl, hin⟩ | ⟨hd, hfile⟩)
    · obtain ⟨e, he, hfile⟩ := List.mem_map.1 hin
      exact ⟨e, he, if_pos hfile⟩
    · exact ⟨d, hd, if_neg hfile⟩

/-- Replacing the cycle of an identifier by one of the same identifier keeps the identifiers. -/
theorem files_modify (set : FileSet) {after : FileCycle} :
    (set.modify after.file fun _ => after).files = set.files := by
  unfold files modify
  rw [List.map_map]
  refine List.map_congr_left ?_
  intro d _
  by_cases hfile : d.file = after.file
  · rw [Function.comp_apply, if_pos hfile, hfile]
  · rw [Function.comp_apply, if_neg hfile]

/-- What the replaced cycle and the one in its place have in common stays the same in the set. -/
theorem map_modify {β : Type} {set : FileSet} {cycle after : FileCycle} (hfiles : set.files.Nodup)
    (hcycle : cycle ∈ set.cycles) {f : FileCycle → β} (hf : f after = f cycle) :
    (set.modify cycle.file fun _ => after).cycles.map f = set.cycles.map f := by
  unfold modify
  rw [List.map_map]
  refine List.map_congr_left ?_
  intro d hd
  by_cases hfile : d.file = cycle.file
  · rw [Function.comp_apply, if_pos hfile, hf,
      List.inj_on_of_nodup_map hfiles hcycle hd hfile.symm]
  · rw [Function.comp_apply, if_neg hfile]

/-- What holds of all cycles of a set, and of the one that is put in the place of another, holds of
all afterwards. -/
theorem forall_cycles_modify {P : FileCycle → Prop} {set : FileSet} {file : FileId}
    {after : FileCycle} (h : ∀ d ∈ set.cycles, P d) (hafter : P after) :
    ∀ d ∈ (set.modify file fun _ => after).cycles, P d := by
  intro d hd
  rcases mem_cycles_modify.1 hd with ⟨rfl, -⟩ | ⟨hd, -⟩
  · exact hafter
  · exact h d hd

theorem mem_cycles_erase {set : FileSet} {file : FileId} {d : FileCycle} :
    d ∈ (set.erase file).cycles ↔ d ∈ set.cycles ∧ d.file ≠ file := by
  simp [erase]

theorem files_erase (set : FileSet) (file : FileId) :
    (set.erase file).files = set.files.filter fun other => other ≠ file := by
  unfold files erase
  rw [List.filter_map]
  rfl

/-- A file set with a cycle added, which may have become the highest one. -/
def added (old : FileSet) (number : Nat) (newest : Bool) (cycle : FileCycle) : FileSet :=
  FileSet.refresh {
    lead := if newest then { old.lead with highest := number } else old.lead
    cycles := old.cycles ++ [cycle] }

section Added

variable {old : FileSet} {number : Nat} {newest : Bool} {cycle : FileCycle}

@[simp] theorem cycles_added : (old.added number newest cycle).cycles = old.cycles ++ [cycle] := rfl

@[simp] theorem name_added : (old.added number newest cycle).name = old.name := by
  cases newest <;> rfl

theorem mem_cycles_added {d : FileCycle} :
    d ∈ (old.added number newest cycle).cycles ↔ d ∈ old.cycles ∨ d = cycle := by
  simp

end Added

end FileSet

namespace Catalog

@[simp] theorem files_guardedSet (set : FileSet) (guarded : Bool) :
    (guardedSet set guarded).files = set.files := by
  unfold FileSet.files guardedSet
  rw [List.map_map]
  rfl

/-! ### What stays of a cycle -/

/-- A cycle that goes on existing keeps its identifier, its name and its tracks. -/
theorem CycleStep.keeps {call : Call} {cycle after : FileCycle} (h : CycleStep call cycle after) :
    after.file = cycle.file ∧ after.item.key = cycle.item.key ∧
      after.item.table = cycle.item.table := by
  cases h <;> exact ⟨rfl, rfl, rfl⟩

theorem CatalogStep.keeps {call : Call} {cycle after : FileCycle}
    (h : CatalogStep call cycle after) :
    after.file = cycle.file ∧ after.item.key = cycle.item.key ∧
      after.item.table = cycle.item.table := by
  cases h <;> exact ⟨rfl, rfl, rfl⟩

@[simp] theorem file_fileCycle (r : Creation) (lead : LeadItem) (number : Nat) (file : FileId)
    (call : Call) (regions : List Region) :
    (r.fileCycle lead number file call regions).file = file := rfl

@[simp] theorem key_fileCycle (r : Creation) (lead : LeadItem) (number : Nat) (file : FileId)
    (call : Call) (regions : List Region) :
    (r.fileCycle lead number file call regions).item.key = ⟨lead.name, number⟩ := by
  unfold Creation.fileCycle FileCycle.assign Creation.item
  dsimp only
  split <;> rfl

/-! ### Catalogs whose cycles are told apart -/

/-- Sets stand in order, none is empty, and every cycle has an identifier of its own and the name of
its set. -/
structure Indexed (c : Catalog) : Prop where
  ordered : Ordered c.sets
  nonempty : ∀ set ∈ c.sets, set.cycles ≠ []
  nodup : ∀ set ∈ c.sets, set.files.Nodup
  apart : ∀ s ∈ c.sets, ∀ t ∈ c.sets, ∀ file, file ∈ s.files → file ∈ t.files → s = t
  le_last : ∀ set ∈ c.sets, ∀ file ∈ set.files, file.number ≤ c.lastFile
  named : ∀ set ∈ c.sets, ∀ cycle ∈ set.cycles, cycle.item.key.set = set.name

theorem indexed_empty (config : Configuration) : Indexed (Catalog.empty config) where
  ordered := List.Pairwise.nil
  nonempty := by intro set hset; cases hset
  nodup := by intro set hset; cases hset
  apart := by intro set hset; cases hset
  le_last := by intro set hset; cases hset
  named := by intro set hset; cases hset

/-- The cycles of a set that is put into a catalog are told apart: each is new, or had its
identifier in the set of that name before. -/
structure Fresh (c : Catalog) (set : FileSet) (last : Nat) : Prop where
  nodup : set.files.Nodup
  files : ∀ file ∈ set.files, (c.lastFile < file.number ∧ file.number ≤ last) ∨
    ∃ old ∈ c.sets, old.name = set.name ∧ file ∈ old.files
  named : ∀ cycle ∈ set.cycles, cycle.item.key.set = set.name

/-- Putting such a set in its place keeps the cycles of the catalog told apart. -/
theorem Indexed.put {c : Catalog} (h : Indexed c) {set : FileSet} {space : FreeSpace} {last : Nat}
    (hlast : c.lastFile ≤ last) (hset : Fresh c set last) :
    Indexed ({ c with space := space, lastFile := last }.put set) := by
  have hmem : ∀ s, s ∈ ({ c with space := space, lastFile := last }.put set).sets ↔
      (s = set ∧ set.cycles ≠ []) ∨ s ∈ c.sets ∧ s.name ≠ set.name := fun s =>
    mem_sets_put (c := { c with space := space, lastFile := last }) h.ordered
  -- an identifier of the set is in no set of another name
  have hapart : ∀ s ∈ c.sets, s.name ≠ set.name → ∀ file ∈ set.files, file ∉ s.files := by
    intro s hs hname file hfile hin
    rcases hset.files file hfile with ⟨hnew, -⟩ | ⟨old, hold, holdname, holdfile⟩
    · exact absurd (h.le_last s hs file hin) (Nat.not_le.2 hnew)
    · exact hname (h.apart s hs old hold file hin holdfile ▸ holdname)
  constructor
  case ordered => exact ordered_put (c := { c with space := space, lastFile := last }) h.ordered set
  case nonempty =>
    intro s hs
    rcases (hmem s).1 hs with ⟨rfl, hne⟩ | ⟨hs, -⟩
    · exact hne
    · exact h.nonempty s hs
  case nodup =>
    intro s hs
    rcases (hmem s).1 hs with ⟨rfl, -⟩ | ⟨hs, -⟩
    · exact hset.nodup
    · exact h.nodup s hs
  case apart =>
    intro s hs t ht file hfs hft
    rcases (hmem s).1 hs with ⟨rfl, -⟩ | ⟨hsold, hsname⟩ <;>
      rcases (hmem t).1 ht with ⟨rfl, -⟩ | ⟨htold, htname⟩
    · rfl
    · exact absurd hft (hapart t htold htname file hfs)
    · exact absurd hfs (hapart s hsold hsname file hft)
    · exact h.apart s hsold t htold file hfs hft
  case le_last =>
    intro s hs file hfile
    rw [lastFile_put]
    rcases (hmem s).1 hs with ⟨rfl, -⟩ | ⟨hs, -⟩
    · rcases hset.files file hfile with ⟨-, hle⟩ | ⟨old, hold, -, holdfile⟩
      · exact hle
      · exact Nat.le_trans (h.le_last old hold file holdfile) hlast
    · exact Nat.le_trans (h.le_last s hs file hfile) hlast
  case named =>
    intro s hs
    rcases (hmem s).1 hs with ⟨rfl, -⟩ | ⟨hs, -⟩
    · exact hset.named
    · exact h.named s hs

/-! ### Steps keep the cycles told apart -/

/-- A set whose cycles have identifiers that they had is told apart. -/
theorem fresh_of_sublist {c : Catalog} (h : Indexed c) {set after : FileSet} {last : Nat}
    (hset : set ∈ c.sets) (hname : after.name = set.name)
    (hfiles : after.files.Sublist set.files)
    (hnamed : ∀ cycle ∈ after.cycles, cycle.item.key.set = set.name) : Fresh c after last where
  nodup := (h.nodup set hset).sublist hfiles
  files := fun _ hfile => Or.inr ⟨set, hset, hname.symm, hfiles.subset hfile⟩
  named := by rwa [hname]

theorem fresh_modify {c : Catalog} (h : Indexed c) {set : FileSet} {cycle after : FileCycle}
    {last : Nat} (hset : set ∈ c.sets) (hcycle : cycle ∈ set.cycles)
    (hfile : after.file = cycle.file) (hkey : after.item.key = cycle.item.key) :
    Fresh c (set.modify cycle.file fun _ => after) last := by
  refine fresh_of_sublist h hset rfl ?_ ?_
  · rw [← hfile, FileSet.files_modify]
  · intro d hd
    rcases FileSet.mem_cycles_modify.1 hd with ⟨rfl, -⟩ | ⟨hd, -⟩
    · rw [hkey]
      exact h.named set hset cycle hcycle
    · exact h.named set hset d hd

/-- The set that a creation goes into is one of the catalog or has no cycle yet. -/
theorem setFor_cases {c : Catalog} {r : Creation} {client : Client} {set : FileSet}
    (h : c.setFor r client = .ok set) :
    set ∈ c.sets ∨ set = r.newSet client ∧ c.find? r.name = none := by
  rcases find?_of_setFor h with ⟨hfind, -⟩ | ⟨hnone, hnew⟩
  · exact Or.inl (List.mem_of_find?_eq_some hfind)
  · exact Or.inr ⟨hnew, hnone⟩

/-- A set that a creation goes into and that has a cycle is one of the catalog. -/
theorem mem_sets_of_setFor {c : Catalog} {r : Creation} {client : Client} {set : FileSet}
    (hset : c.setFor r client = .ok set) {d : FileCycle} (hd : d ∈ set.cycles) : set ∈ c.sets := by
  rcases setFor_cases hset with hmem | ⟨rfl, -⟩
  · exact hmem
  · cases hd

/-- What holds of every cycle of the catalog and of a new one holds of those of the set that the new
one goes into. -/
theorem forall_cycles_enter {c : Catalog} {P : FileCycle → Prop}
    (h : ∀ set ∈ c.sets, ∀ d ∈ set.cycles, P d) {r : Creation} {client : Client} {set : FileSet}
    (hset : c.setFor r client = .ok set) {cycle : FileCycle} (hcycle : P cycle) :
    ∀ d ∈ set.cycles ++ [cycle], P d := by
  intro d hd
  rcases List.mem_append.1 hd with hd | hd
  · exact h set (mem_sets_of_setFor hset hd) d hd
  · rw [List.mem_singleton.1 hd]
    exact hcycle

theorem fresh_enter {c : Catalog} (h : Indexed c) {r : Creation} {client : Client} {set : FileSet}
    (hset : c.setFor r client = .ok set) (lead : LeadItem) (hlead : lead.name = set.name)
    {cycle : FileCycle} (hfile : cycle.file = ⟨c.lastFile + 1⟩)
    (hkey : cycle.item.key.set = set.name) :
    Fresh c { lead := lead, cycles := set.cycles ++ [cycle] } (c.lastFile + 1) := by
  have hname : ({ lead := lead, cycles := set.cycles ++ [cycle] } : FileSet).name = set.name :=
    hlead
  have hfiles : ({ lead := lead, cycles := set.cycles ++ [cycle] } : FileSet).files =
      set.files ++ [⟨c.lastFile + 1⟩] := by
    simp [FileSet.files, hfile]
  have hold : ∀ file ∈ set.files, ∃ old ∈ c.sets, old.name = set.name ∧ file ∈ old.files := by
    intro file hin
    obtain ⟨d, hd, -⟩ := List.mem_map.1 hin
    exact ⟨set, mem_sets_of_setFor hset hd, rfl, hin⟩
  constructor
  case nodup =>
    rw [hfiles, List.nodup_append]
    refine ⟨?_, List.nodup_singleton _, ?_⟩
    · rcases setFor_cases hset with hmem | ⟨rfl, -⟩
      · exact h.nodup set hmem
      · exact List.nodup_nil
    · intro file hin other hother heq
      rw [List.mem_singleton] at hother
      -- the new identifier had not been given out
      obtain ⟨old, holdmem, -, hinold⟩ := hold file hin
      have hle := h.le_last old holdmem file hinold
      rw [heq, hother] at hle
      exact absurd hle (Nat.not_succ_le_self _)
  case files =>
    intro file hin
    rw [hfiles, List.mem_append, List.mem_singleton] at hin
    rw [hname]
    rcases hin with hin | rfl
    · exact Or.inr (hold file hin)
    · exact Or.inl ⟨Nat.lt_succ_self _, Nat.le_refl _⟩
  case named =>
    intro d hd
    rw [hname]
    rcases List.mem_append.1 hd with hd | hd
    · exact h.named set (mem_sets_of_setFor hset hd) d hd
    · rw [List.mem_singleton.1 hd]
      exact hkey

namespace Step

variable {call : Call} {c : Catalog} {set : FileSet} {space : FreeSpace} {last : Nat}

/-- Identifiers are given out in ascending order. -/
theorem last_le (hs : Step call c set space last) : c.lastFile ≤ last := by
  cases hs with
  | enter => exact Nat.le_succ _
  | change => exact Nat.le_refl _
  | catalog => exact Nat.le_refl _
  | drop => exact Nat.le_refl _
  | grow => exact Nat.le_refl _
  | guard => exact Nat.le_refl _

/-- The cycles of the set that a step puts in its place are told apart. -/
theorem fresh (h : Indexed c) (hs : Step call c set space last) : Fresh c set last := by
  cases hs with
  | @enter r old number newest regions _ hr hset hnumber htracks hspace =>
      have hlead : (if newest then { old.lead with highest := number } else old.lead).name =
          old.name := by cases newest <;> rfl
      have hkey := congrArg CycleKey.set (key_fileCycle r old.lead number ⟨c.lastFile + 1⟩ call
        regions)
      obtain ⟨hnodup, hfiles, hnamed⟩ := fresh_enter h hset _ hlead
        (file_fileCycle r old.lead number ⟨c.lastFile + 1⟩ call regions) hkey
      exact ⟨hnodup, hfiles, hnamed⟩
  | change hset hcycle hstep =>
      obtain ⟨hfile, hkey, -⟩ := hstep.keeps
      exact fresh_modify h hset hcycle hfile hkey
  | catalog hset hcycle _ hstep =>
      obtain ⟨hfile, hkey, -⟩ := hstep.keeps
      obtain ⟨hnodup, hfiles, hnamed⟩ : Fresh c _ c.lastFile :=
        fresh_modify h hset hcycle hfile hkey
      exact ⟨hnodup, hfiles, hnamed⟩
  | drop hset hcycle =>
      refine fresh_of_sublist h hset rfl ?_ ?_
      · rw [FileSet.files_refresh, FileSet.files_erase]
        exact List.filter_sublist
      · intro d hd
        exact h.named _ hset d (FileSet.mem_cycles_erase.1 hd).1
  | grow hset hcycle => exact fresh_modify h hset hcycle rfl rfl
  | guard hset guarded =>
      refine fresh_of_sublist h hset rfl ?_ ?_
      · rw [files_guardedSet]
      · intro d hd
        obtain ⟨e, he, rfl⟩ := List.mem_map.1 hd
        exact h.named _ hset e he

/-- **Every step keeps the cycles of the catalog told apart.** -/
theorem indexed (h : Indexed c) (hs : Step call c set space last) :
    Indexed ({ c with space := space, lastFile := last }.put set) :=
  h.put hs.last_le (hs.fresh h)

end Step

end Catalog

end FileDirectory
