/-
**Granules follow the tracks.**

A cycle counts the granules that reach up to its highest allocated track and remembers how far its
tracks have been written.  Neither number is computed from the allocation table: creating a cycle,
allocating tracks and recording what was written each bring them up to date, rounding up to granules.
Still they always agree with the table.

Main definitions:

* `FileDirectory.Spans` — so many granules reach up to every track, and no fewer do;
* `FileDirectory.MainItem.Metered` — the numbers of a cycle agree with its allocation table.

Main results:

* `FileDirectory.spans_iff` — how many granules that is;
* `FileDirectory.Catalog.CycleStep.metered`, `FileDirectory.Catalog.metered_grown`,
  `FileDirectory.Catalog.metered_fileCycle` — a cycle that changes, grows or is created;
* `FileDirectory.Catalog.Step.metered` — every step keeps the numbers of all cycles.
-/

import Mathlib.Algebra.Order.Floor.Div
import FileDirectory.Proofs.Catalog.Divided

set_option autoImplicit false

namespace FileDirectory

/-! ### Granules that reach up to tracks -/

/-- Granules of the given size reach up to every track from so many of them on. -/
def Spans (perGranule granules : Nat) (tracks : List Nat) : Prop :=
  ∀ n, granules ≤ n ↔ ∀ track ∈ tracks, track < n * perGranule

section Spans

variable {perGranule granules : Nat} {tracks : List Nat}

/-- How many granules reach up to a limit. -/
theorem granulesUpTo_eq (hpos : 0 < perGranule) (limit : Nat) :
    Catalog.granulesUpTo limit perGranule = limit ⌈/⌉ perGranule := by
  rw [Nat.ceilDiv_eq_add_pred_div, Catalog.granulesUpTo, ← Nat.add_sub_assoc hpos]

theorem granulesUpTo_le_iff (hpos : 0 < perGranule) {limit n : Nat} :
    Catalog.granulesUpTo limit perGranule ≤ n ↔ limit ≤ n * perGranule := by
  rw [granulesUpTo_eq hpos, ceilDiv_le_iff_le_mul hpos, Nat.mul_comm]

/-- **How many granules reach up to the highest track.** -/
theorem spans_iff (hpos : 0 < perGranule) : Spans perGranule granules tracks ↔
    granules = tracks.max?.elim 0 fun top => (top + 1) ⌈/⌉ perGranule := by
  have hcount : ∀ n, (tracks.max?.elim 0 fun top => (top + 1) ⌈/⌉ perGranule) ≤ n ↔
      ∀ track ∈ tracks, track < n * perGranule := by
    intro n
    cases hmax : tracks.max? with
    | none =>
        rw [List.max?_eq_none_iff.1 hmax]
        simp
    | some top =>
        obtain ⟨htop, hle⟩ := List.max?_eq_some_iff.1 hmax
        rw [Option.elim_some, ceilDiv_le_iff_le_mul hpos, Nat.mul_comm]
        exact ⟨fun h track htrack => Nat.lt_of_le_of_lt (hle track htrack) h, fun h => h top htop⟩
  constructor
  · intro h
    exact Nat.le_antisymm ((h _).2 ((hcount _).1 (Nat.le_refl _)))
      ((hcount _).2 ((h _).1 (Nat.le_refl _)))
  · rintro rfl
    exact hcount

/-- The tracks of granules from the first on. -/
theorem spans_range (hpos : 0 < perGranule) (n : Nat) :
    Spans perGranule n (List.range (n * perGranule)) := by
  intro m
  constructor
  · intro hle track htrack
    exact Nat.lt_of_lt_of_le (List.mem_range.1 htrack) (Nat.mul_le_mul_right _ hle)
  · intro h
    by_contra hlt
    have hmul : m * perGranule < n * perGranule := Nat.mul_lt_mul_of_pos_right (Nat.not_le.1 hlt) hpos
    exact Nat.lt_irrefl _ (h _ (List.mem_range.2 hmul))

/-- Tracks below a limit are added, among them the last one below it. -/
theorem Spans.grown (h : Spans perGranule granules tracks) (hpos : 0 < perGranule) {limit : Nat}
    {added all : List Nat} (hall : all.Perm (added ++ tracks)) (hadded : ∀ track ∈ added, track < limit)
    (hlast : 0 < limit → limit - 1 ∈ all) :
    Spans perGranule (max granules (Catalog.granulesUpTo limit perGranule)) all := by
  intro n
  rw [Nat.max_le, h n, granulesUpTo_le_iff hpos]
  constructor
  · rintro ⟨htracks, hlimit⟩ track htrack
    rcases List.mem_append.1 (hall.mem_iff.1 htrack) with hin | hin
    · exact Nat.lt_of_lt_of_le (hadded track hin) hlimit
    · exact htracks track hin
  · intro hbelow
    refine ⟨fun track htrack => hbelow track (hall.mem_iff.2 (List.mem_append_right _ htrack)), ?_⟩
    rcases Nat.eq_zero_or_pos limit with hzero | hlimit
    · exact hzero ▸ Nat.zero_le _
    · have := hbelow _ (hlast hlimit)
      omega

end Spans

/-! ### The numbers of a cycle -/

/-- The numbers of a cycle agree with its allocation table. -/
structure MainItem.Metered (m : MainItem) (perGranule : Nat) : Prop where
  /-- The granules reach up to the highest allocated track. -/
  granules : m.highestGranule =
    m.table.fileTracks.max?.elim 0 fun top => (top + 1) ⌈/⌉ perGranule
  le_max : m.highestGranule ≤ m.maxGranules
  /-- The highest track that was written is allocated. -/
  written : m.highestTrackWritten = 0 ∨ m.highestTrackWritten - 1 ∈ m.table.fileTracks
  flag : m.fileFlags.written = true ↔ 0 < m.highestTrackWritten
  tape : m.fileType = .tape → m.table.extents = [] ∧ m.initialGranules = 0 ∧ m.maxGranules = 0

namespace MainItem.Metered

variable {m : MainItem} {perGranule : Nat}

theorem spans (h : m.Metered perGranule) (hpos : 0 < perGranule) :
    Spans perGranule m.highestGranule m.table.fileTracks := (spans_iff hpos).2 h.granules

/-- What was written lies within the granules. -/
theorem written_le (h : m.Metered perGranule) (hpos : 0 < perGranule) :
    m.highestTrackWritten ≤ m.highestGranule * perGranule := by
  rcases h.written with hzero | hin
  · exact hzero ▸ Nat.zero_le _
  · have := ((h.spans hpos) m.highestGranule).1 (Nat.le_refl _) _ hin
    omega

/-- A tape has no tracks, and all its numbers are zero. -/
theorem of_tape (h : m.Metered perGranule) (htape : m.fileType = .tape) :
    m.highestGranule = 0 ∧ m.highestTrackWritten = 0 := by
  obtain ⟨hextents, -, hmax⟩ := h.tape htape
  refine ⟨Nat.le_zero.1 (hmax ▸ h.le_max), ?_⟩
  rcases h.written with hzero | hin
  · exact hzero
  · rw [ExtentTable.fileTracks, hextents] at hin
    cases hin

end MainItem.Metered

namespace Catalog

/-! ### Cycles that change -/

section Cycles

variable {call : Call} {cycle after : FileCycle} {perGranule : Nat}

theorem CycleStep.characteristics_eq (hstep : CycleStep call cycle after) :
    after.item.characteristics = cycle.item.characteristics := by
  cases hstep <;> rfl

theorem CatalogStep.characteristics_eq (hstep : CatalogStep call cycle after) :
    after.item.characteristics = cycle.item.characteristics := by
  cases hstep <;> rfl

/-- A cycle that goes on existing on its tracks. -/
theorem CycleStep.metered (hstep : CycleStep call cycle after) (h : cycle.item.Metered perGranule) :
    after.item.Metered perGranule := by
  obtain ⟨granules, le_max, written, flag, tape⟩ := h
  cases hstep with
  | assign | release | delete => exact ⟨granules, le_max, written, flag, tape⟩
  | write region hregion hcovers =>
      have hcount := hregion.nonempty
      have hlimit : region.limit = region.first + region.count := rfl
      refine ⟨granules, le_max, Or.inr ?_, iff_of_true rfl ?_, tape⟩
      · show max cycle.item.highestTrackWritten region.limit - 1 ∈ cycle.item.table.fileTracks
        rcases Nat.le_total cycle.item.highestTrackWritten region.limit with hle | hle
        · rw [Nat.max_eq_right hle]
          exact ExtentTable.mem_fileTracks_of_covers hcovers (Region.mem_iff.2 (by omega))
        · rw [Nat.max_eq_left hle]
          exact written.resolve_left (by omega)
      · show 0 < max cycle.item.highestTrackWritten region.limit
        omega

/-- A cycle that becomes live. -/
theorem CatalogStep.metered (hstep : CatalogStep call cycle after)
    (h : cycle.item.Metered perGranule) : after.item.Metered perGranule := by
  obtain ⟨granules, le_max, written, flag, tape⟩ := h
  cases hstep <;> exact ⟨granules, le_max, written, flag, tape⟩

/-- A cycle with more tracks behind it. -/
theorem metered_grown (h : cycle.item.Metered perGranule) (hpos : 0 < perGranule)
    {space after : FreeSpace} {table : ExtentTable} {region : Region} (hspace : space.Sound)
    (hascending : cycle.item.table.Ascending) (hregion : Addressable cycle region)
    (hgranules : granulesUpTo region.limit perGranule ≤ cycle.item.maxGranules)
    (hfill : fill space cycle.item.table (cycle.item.table.gaps region) = (none, after, table))
    (now : Nat) :
    (grown cycle table (granulesUpTo region.limit perGranule) now).item.Metered perGranule := by
  have hspans := h.spans hpos
  obtain ⟨-, le_max, written, flag, tape⟩ := h
  obtain ⟨hgaps, hinside⟩ := hascending.gaps region
  obtain ⟨-, -, -, -, hfile, -⟩ := fill_spec hspace hascending hgaps
    (fun track htrack => (hinside track htrack).2) hfill
  have hcount := hregion.nonempty
  have hlimit : region.limit = region.first + region.count := rfl
  have hlast : region.limit - 1 ∈ table.fileTracks := hfile.mem_iff.2 (List.mem_append.2
    (cycle.item.table.mem_gaps_or_mem_fileTracks (Region.mem_iff.2 (by omega))))
  exact {
    granules := (spans_iff hpos).1
      (hspans.grown hpos hfile (fun track htrack => (hinside track htrack).1.2) fun _ => hlast)
    le_max := Nat.max_le.2 ⟨le_max, hgranules⟩
    written := written.imp_right fun hin => hfile.mem_iff.2 (List.mem_append_right _ hin)
    flag := flag
    tape := fun htape => by
      have htype : cycle.item.fileType = .tape := htape
      rw [hregion.fileType] at htype
      cases htype }

end Cycles

/-- A cycle that is created, its initial reserve on tracks that were allocated for it. -/
theorem metered_fileCycle {config : Configuration} {r : Creation} (hr : WellFormed config r)
    {lead : LeadItem} (htype : lead.fileType = r.fileType) (number : Nat) (file : FileId) (call : Call)
    {space after : FreeSpace} {regions : List Region} (hspace : space.Sound)
    (hpos : ∀ granularity, 0 < config.tracksPerGranule granularity)
    (hregions : space.allocate (r.initialReserve * config.tracksPerGranule r.granularity) =
      some (regions, after)) :
    (r.fileCycle lead number file call regions).item.Metered (config.tracksPerGranule
      (r.fileCycle lead number file call regions).item.characteristics.granularity) := by
  unfold Creation.fileCycle FileCycle.assign Creation.item
  dsimp only
  cases hr.kind with
  | tape htape _ _ _ =>
      have hnot : ¬r.fileType = .massStorage := by
        rw [htape]
        decide
      rw [if_neg hnot]
      exact ⟨rfl, Nat.le_refl _, Or.inl rfl, iff_of_false nofun (Nat.lt_irrefl 0),
        fun _ => ⟨rfl, rfl, rfl⟩⟩
  | disk hdisk _ _ hreserve _ =>
      rw [if_pos hdisk]
      obtain ⟨-, -, hcounts, hlength, -⟩ := hspace.allocate_spec hregions
      obtain ⟨-, hfile, -, -⟩ := ExtentTable.ascending_empty.insertRegions 0 hcounts
        fun _ hin => (by cases hin)
      have htracks : (({} : ExtentTable).insertRegions 0 regions).fileTracks.Perm
          (List.range (r.initialReserve * config.tracksPerGranule r.granularity)) := by
        rw [← hlength, List.range_eq_range']
        exact hfile.trans (List.Perm.of_eq (List.append_nil _))
      refine ⟨(spans_iff (hpos r.granularity)).1 fun n => ?_, hreserve, Or.inl rfl,
        iff_of_false nofun (Nat.lt_irrefl 0), fun htape => ?_⟩
      · refine (spans_range (hpos r.granularity) r.initialReserve n).trans ?_
        exact forall_congr' fun track => imp_congr_left htracks.mem_iff.symm
      · have htape : lead.fileType = .tape := htape
        rw [htype, hdisk] at htape
        cases htape

/-! ### Steps -/

namespace Step

variable {call : Call} {c : Catalog} {set : FileSet} {space : FreeSpace} {last : Nat}

/-- **Every step keeps the numbers of all cycles in agreement with their tables.** -/
theorem metered (hs : Step call c set space last) (hc : c.Indexed) (hdivided : c.Divided)
    (hpos : ∀ granularity, 0 < c.config.tracksPerGranule granularity)
    (h : ∀ s ∈ c.sets, ∀ d ∈ s.cycles,
      d.item.Metered (c.config.tracksPerGranule d.item.characteristics.granularity)) :
    ∀ s ∈ ({ c with space := space, lastFile := last }.put set).sets, ∀ d ∈ s.cycles,
      d.item.Metered (c.config.tracksPerGranule d.item.characteristics.granularity) := by
  refine forall_sets_put hc.ordered h ?_
  cases hs with
  | @enter r old number newest regions _ hr hset hnumber htracks hspace =>
      exact forall_cycles_enter h hset (metered_fileCycle hr (fileType_of_setFor hset) number _ call
        hdivided.sound hpos hspace)
  | change hset hcycle hstep =>
      refine FileSet.forall_cycles_modify (h _ hset) ?_
      rw [hstep.characteristics_eq]
      exact hstep.metered (h _ hset _ hcycle)
  | catalog hset hcycle _ hstep =>
      refine FileSet.forall_cycles_modify (h _ hset) ?_
      rw [hstep.characteristics_eq]
      exact hstep.metered (h _ hset _ hcycle)
  | drop hset hcycle => exact fun d hd => h _ hset d (FileSet.mem_cycles_erase.1 hd).1
  | grow hset hcycle hregion hgranules hfill =>
      exact FileSet.forall_cycles_modify (h _ hset) (metered_grown (h _ hset _ hcycle) (hpos _)
        hdivided.sound (hdivided.ascending _ hset _ hcycle) hregion hgranules hfill _)
  | guard hset guarded =>
      intro d hd
      obtain ⟨e, he, rfl⟩ := List.mem_map.1 hd
      obtain ⟨granules, le_max, written, flag, tape⟩ := h _ hset e he
      exact ⟨granules, le_max, written, flag, tape⟩

end Step

end Catalog

end FileDirectory
