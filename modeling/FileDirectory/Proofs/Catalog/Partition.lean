/-
**Allocation tables stay canonical.**

As long as all tables are canonical, creating and growing cycles keep them so, and their file tracks
stay below the largest value of a word.  The pack is then divided among cycles whose tables have one
form for the tracks that they hold.

Main definitions:

* `FileDirectory.ExtentTable.Fits` — a canonical table whose file tracks fit into words;
* `FileDirectory.Catalog.Partitioned` — the tracks of the pack are divided, and all tables fit.

Main results:

* `FileDirectory.Catalog.Step.partitioned` — every step keeps this up.
-/

import FileDirectory.Proofs.Catalog.Divided
import FileDirectory.Proofs.Pack.ExtentTable

set_option autoImplicit false

namespace FileDirectory

/-- An allocation table is canonical, and its file tracks have numbers that fit into words. -/
structure ExtentTable.Fits (t : ExtentTable) : Prop where
  canonical : t.Canonical
  bounded : ∀ track ∈ t.fileTracks, track < Word.maxValue

namespace Catalog

/-- The tracks of the pack are divided among the cycles and the free space. -/
structure Partitioned (c : Catalog) : Prop where
  sound : c.space.Sound
  capacity : c.space.capacity ≤ Word.maxValue
  tables : ∀ set ∈ c.sets, ∀ d ∈ set.cycles, d.item.table.Fits
  perm : (c.sets.flatMap FileSet.packTracks ++ tracksIn c.space.regions).Perm
    (List.range c.space.capacity)

theorem partitioned_empty (config : Configuration) : Partitioned (Catalog.empty config) where
  sound := (divided_empty config).sound
  capacity := Nat.min_le_right _ _
  tables := by intro set hset; cases hset
  perm := (divided_empty config).perm

theorem Partitioned.divided {c : Catalog} (h : Partitioned c) : Divided c :=
  ⟨h.sound, fun set hset d hd => (h.tables set hset d hd).canonical.ascending, h.perm⟩

/-- The table of a created cycle fits. -/
theorem fits_fileCycle_table {config : Configuration} {r : Creation} (hr : WellFormed config r)
    (lead : LeadItem) (number : Nat) (file : FileId) (call : Call) {regions : List Region}
    (hpos : ∀ region ∈ regions, 0 < region.count)
    (hlength : (tracksIn regions).length ≤ Word.maxValue)
    (hnone : r.initialReserve = 0 → regions = []) :
    (r.fileCycle lead number file call regions).item.table.Fits := by
  obtain ⟨htable, -, -⟩ := table_fileCycle hr lead number file call hpos hnone
  obtain ⟨-, hfile, -, -⟩ := ExtentTable.ascending_empty.insertRegions 0 hpos
    fun _ hin => (by cases hin)
  rw [htable]
  refine ⟨ExtentTable.canonical_empty.insertRegions 0 hpos fun _ _ _ hin => (by cases hin), ?_⟩
  intro track htrack
  rcases List.mem_append.1 (hfile.mem_iff.1 htrack) with hin | hin
  · rw [List.mem_range'_1] at hin
    omega
  · cases hin

namespace Step

variable {call : Call} {c : Catalog} {set : FileSet} {space : FreeSpace} {last : Nat}

/-- The tables of the set that a step puts in its place fit. -/
theorem fits_tables (hs : Step call c set space last) (h : Partitioned c) :
    ∀ d ∈ set.cycles, d.item.table.Fits := by
  -- a cycle is replaced by one with the same tracks
  have hreplace : ∀ (old : FileSet) (cycle after : FileCycle), old ∈ c.sets → cycle ∈ old.cycles →
      after.item.table = cycle.item.table →
      ∀ d ∈ (old.modify cycle.file fun _ => after).cycles, d.item.table.Fits := by
    intro old cycle after hold hcycle htable
    exact FileSet.forall_cycles_modify (h.tables old hold) (htable ▸ h.tables old hold cycle hcycle)
  cases hs with
  | @enter r old number newest regions _ hr hset hnumber htracks hspace =>
      obtain ⟨-, -, hpos, hlength, -⟩ := h.sound.allocate_spec hspace
      exact forall_cycles_enter h.tables hset (fits_fileCycle_table hr old.lead number
        ⟨c.lastFile + 1⟩ call hpos (hlength ▸ htracks) (regions_eq_nil_of_allocate hspace))
  | change hset hcycle hstep => exact hreplace _ _ _ hset hcycle hstep.keeps.2.2
  | catalog hset hcycle _ hstep => exact hreplace _ _ _ hset hcycle hstep.keeps.2.2
  | drop hset hcycle => exact fun d hd => h.tables _ hset d (FileSet.mem_cycles_erase.1 hd).1
  | @grow old cycle region space table hset hcycle hregion hgranules hfill =>
      have hold := h.tables old hset cycle hcycle
      obtain ⟨hgaps, hinside⟩ := hold.canonical.ascending.gaps region
      have hout := hold.canonical.gaps region
      obtain ⟨-, -, -, -, hfile, -⟩ := fill_spec h.sound hold.canonical.ascending hgaps
        (fun track htrack => (hinside track htrack).2) hfill
      refine FileSet.forall_cycles_modify (h.tables old hset)
        ⟨hold.canonical.fill h.sound hgaps hout hfill, ?_⟩
      intro track htrack
      rcases List.mem_append.1 (hfile.mem_iff.1 htrack) with hin | hin
      · exact Nat.lt_of_lt_of_le (hinside track hin).1.2 hregion.limit_le
      · exact hold.bounded track hin
  | guard hset guarded =>
      intro d hd
      obtain ⟨e, he, rfl⟩ := List.mem_map.1 hd
      exact h.tables _ hset e he

/-- **Every step keeps the tracks of the pack divided** among the cycles and the free space. -/
theorem partitioned (hs : Step call c set space last) (h : Partitioned c) (hc : c.Indexed) :
    Partitioned ({ c with space := space, lastFile := last }.put set) := by
  have hdivided := hs.divided h.divided hc
  refine ⟨hdivided.sound, ?_, forall_sets_put hc.ordered h.tables (hs.fits_tables h), hdivided.perm⟩
  rw [space_put]
  exact hs.capacity_eq h.divided hc ▸ h.capacity

end Step

end Catalog

end FileDirectory
