/-
**The pack is divided among the cycles and the free space.**

Every track of the pack is either free or belongs to one extent of one cycle.  Creating and growing
cycles takes free tracks, dropping a cycle gives its tracks back, and nothing else moves tracks.  The
allocation tables need not be canonical for that: it is enough that they stand in order.

Main definitions:

* `FileDirectory.FileSet.packTracks` — the pack tracks of a file set;
* `FileDirectory.Catalog.takesBack` — whether the pack takes regions back;
* `FileDirectory.Catalog.Divided` — the tracks of the pack are divided;
* `FileDirectory.Catalog.Shares` — a set and the free space share out the tracks that were there.

Main results:

* `FileDirectory.Catalog.releaseAll_spec` — tracks that belong to a cycle can all be given back;
* `FileDirectory.Catalog.Step.shares` — what a step puts in place shares out the tracks that were
  there;
* `FileDirectory.Catalog.Step.divided` — every step keeps the pack divided.
-/

import FileDirectory.Proofs.Catalog.Indexed

set_option autoImplicit false

namespace FileDirectory

namespace FileSet

/-- The pack tracks of a file set, cycle by cycle. -/
def packTracks (set : FileSet) : List Nat := set.cycles.flatMap fun d => d.item.table.packTracks

/-- The tracks of a cycle are those of its set. -/
theorem subset_packTracks {set : FileSet} {cycle : FileCycle} (hcycle : cycle ∈ set.cycles) :
    ∀ track ∈ cycle.item.table.packTracks, track ∈ set.packTracks :=
  fun _ htrack => List.mem_flatMap.2 ⟨cycle, hcycle, htrack⟩

/-- A cycle of a set stands between others, which stay when it is replaced or removed. -/
theorem exists_split {set : FileSet} (hfiles : set.files.Nodup) {cycle : FileCycle}
    (hcycle : cycle ∈ set.cycles) (after : FileCycle) :
    ∃ before rest, set.cycles = before ++ cycle :: rest ∧
      (set.modify cycle.file fun _ => after).cycles = before ++ after :: rest ∧
      (set.erase cycle.file).cycles = before ++ rest := by
  obtain ⟨before, rest, hsplit⟩ := List.append_of_mem hcycle
  -- the others have other identifiers, so neither change touches them
  have hne : ∀ d ∈ before ++ rest, d.file ≠ cycle.file := by
    have hperm : (set.cycles.map FileCycle.file).Perm
        (cycle.file :: (before ++ rest).map FileCycle.file) := by
      rw [hsplit]
      exact List.perm_middle.map FileCycle.file
    have hout := (List.nodup_cons.1 (hperm.nodup_iff.1 hfiles)).1
    intro d hd heq
    exact hout (heq ▸ List.mem_map_of_mem hd)
  have hkeep : ∀ ds : List FileCycle, (∀ d ∈ ds, d.file ≠ cycle.file) →
      ds.map (fun d => if d.file = cycle.file then after else d) = ds := by
    intro ds hds
    refine (List.map_congr_left ?_).trans (List.map_id _)
    intro d hd
    exact if_neg (hds d hd)
  have hfilter : ∀ ds : List FileCycle, (∀ d ∈ ds, d.file ≠ cycle.file) →
      ds.filter (fun d => d.file ≠ cycle.file) = ds := by
    intro ds hds
    exact List.filter_eq_self.2 fun d hd => decide_eq_true (hds d hd)
  have hbefore := fun d hd => hne d (List.mem_append_left _ hd)
  have hrest := fun d hd => hne d (List.mem_append_right _ hd)
  refine ⟨before, rest, hsplit, ?_, ?_⟩
  · unfold modify
    dsimp only
    rw [hsplit, List.map_append, List.map_cons, if_pos rfl, hkeep before hbefore,
      hkeep rest hrest]
  · unfold erase
    dsimp only
    rw [hsplit, List.filter_append, hfilter before hbefore,
      List.filter_cons_of_neg (by simp), hfilter rest hrest]

end FileSet

namespace Catalog

/-! ### Sums over the file sets -/

section Sums

variable {α : Type}

/-- What two lists share out stays shared out with others between them. -/
theorem perm_around {a b c d : List α} (h : (a ++ b).Perm (c ++ d)) (between : List α) :
    (a ++ (between ++ b)).Perm (c ++ (between ++ d)) :=
  (List.perm_append_comm_assoc a between b).trans
    ((h.append_left between).trans (List.perm_append_comm_assoc c between d).symm)

/-- What a list has for a set of the catalog and for all others is what it has for the catalog. -/
theorem perm_others {sets : List FileSet} (h : Ordered sets) {old : FileSet} (hold : old ∈ sets)
    (f : FileSet → List α) :
    (sets.flatMap f).Perm (f old ++ (sets.filter fun s => s.name ≠ old.name).flatMap f) := by
  have hnodup : sets.Nodup := h.nodup_names.of_map
  have hout : old ∉ sets.filter fun s => s.name ≠ old.name := by
    intro hin
    simpa using (List.mem_filter.1 hin).2
  have hperm : sets.Perm (old :: sets.filter fun s => s.name ≠ old.name) := by
    refine (List.perm_ext_iff_of_nodup hnodup (List.nodup_cons.2 ⟨hout, hnodup.filter _⟩)).2 ?_
    intro s
    rw [List.mem_cons, List.mem_filter, decide_eq_true_eq]
    constructor
    · intro hs
      by_cases hname : s.name = old.name
      · exact Or.inl (h.eq_of_name_eq hs hold hname)
      · exact Or.inr ⟨hs, hname⟩
    · rintro (rfl | ⟨hs, -⟩)
      · exact hold
      · exact hs
  exact hperm.flatMap_right f

/-- The same for the set of a name, which there may not be. -/
theorem perm_find? {c : Catalog} (h : Ordered c.sets) (name : SetName) (f : FileSet → List α) :
    (c.sets.flatMap f).Perm ((c.find? name).toList.flatMap f ++
      (c.sets.filter fun s => s.name ≠ name).flatMap f) := by
  cases hfind : c.find? name with
  | none =>
      have hall : (c.sets.filter fun s => s.name ≠ name) = c.sets :=
        List.filter_eq_self.2 fun s hs => decide_eq_true (find?_eq_none_iff.1 hfind s hs)
      rw [hall]
      exact List.Perm.refl _
  | some old =>
      obtain ⟨hold, rfl⟩ := (find?_eq_some_iff h).1 hfind
      rw [Option.toList_some, List.flatMap_singleton]
      exact perm_others h hold f

/-- What a list has for a set that was put in its place and for all others; a set without cycles
must not count. -/
theorem perm_put {c : Catalog} (h : Ordered c.sets) (set : FileSet) (f : FileSet → List α)
    (hempty : set.cycles = [] → f set = []) :
    ((c.put set).sets.flatMap f).Perm
      (f set ++ (c.sets.filter fun s => s.name ≠ set.name).flatMap f) := by
  have hrest : ((c.put set).sets.filter fun s => s.name ≠ set.name) =
      c.sets.filter fun s => s.name ≠ set.name := by
    unfold put
    by_cases hnone : set.cycles = []
    · simp [hnone]
    · simp only [List.isEmpty_iff, hnone, if_false]
      induction c.sets with
      | nil => simp [insertSet]
      | cons other rest ih =>
          rw [insertSet]
          cases hcmp : compare set.name other.name with
          | lt => simp
          | eq =>
              have heq : set.name = other.name := Std.LawfulEqOrd.eq_of_compare hcmp
              simp [heq]
          | gt =>
              dsimp only
              rw [List.filter_cons, List.filter_cons, ih]
  rw [← hrest]
  refine (perm_find? (ordered_put h set) set.name f).trans (List.Perm.append_right _ ?_)
  rw [find?_put h, if_pos rfl]
  by_cases hnone : set.cycles = []
  · rw [if_pos hnone, hempty hnone]
    exact List.Perm.refl _
  · rw [if_neg hnone, Option.toList_some, List.flatMap_singleton]

end Sums

/-! ### Giving back the tracks of a cycle -/

/-- Whether the pack takes every one of the given regions back, in turn. -/
def takesBack (space : FreeSpace) : List Region → Bool
  | [] => true
  | r :: regions => (space.release r).1 && takesBack (space.release r).2 regions

/-- Tracks that belong to a cycle can all be given back. -/
theorem releaseAll_spec {space : FreeSpace} (h : space.Sound) (regions : List Region)
    (hnodup : (tracksIn regions ++ tracksIn space.regions).Nodup)
    (hbound : ∀ track ∈ tracksIn regions, track < space.capacity) :
    takesBack space regions = true ∧ (releaseAll space regions).Sound ∧
      (releaseAll space regions).capacity = space.capacity ∧
      (tracksIn (releaseAll space regions).regions).Perm
        (tracksIn regions ++ tracksIn space.regions) := by
  unfold releaseAll
  induction regions generalizing space with
  | nil => exact ⟨rfl, h, rfl, List.Perm.refl _⟩
  | cons r regions ih =>
      rw [tracksIn_cons, List.append_assoc] at hnodup
      rw [tracksIn_cons] at hbound
      obtain ⟨-, hrest, hapart⟩ := List.nodup_append.1 hnodup
      obtain ⟨htaken, hsound, hcapacity, hperm⟩ := h.release_spec (r := r)
        (fun track htrack => hbound track (List.mem_append_left _ (Region.mem_tracks.2 htrack)))
        (fun track htrack hin => hapart _ (Region.mem_tracks.2 htrack) _
          (List.mem_append_right _ hin) rfl)
      -- what is still to be given back stays apart from what is free by then
      have hmoved : (tracksIn regions ++ tracksIn (space.release r).2.regions).Perm
          (r.tracks ++ (tracksIn regions ++ tracksIn space.regions)) := by
        exact (hperm.append_left _).trans (List.perm_append_comm_assoc _ _ _)
      obtain ⟨hall, hafter, hcapacityAfter, hpermAfter⟩ := ih hsound
        (hmoved.nodup_iff.2 hnodup) (by
          intro track htrack
          rw [hcapacity]
          exact hbound track (List.mem_append_right _ htrack))
      refine ⟨?_, hafter, hcapacityAfter.trans hcapacity, ?_⟩
      · rw [takesBack, htaken, hall]
        rfl
      · rw [List.foldl_cons, tracksIn_cons, List.append_assoc]
        exact hpermAfter.trans hmoved

/-! ### Divided packs -/

/-- The tracks of the pack are divided among the cycles and the free space, and the allocation tables
stand in order. -/
structure Divided (c : Catalog) : Prop where
  sound : c.space.Sound
  ascending : ∀ set ∈ c.sets, ∀ d ∈ set.cycles, d.item.table.Ascending
  perm : (c.sets.flatMap FileSet.packTracks ++ tracksIn c.space.regions).Perm
    (List.range c.space.capacity)

theorem divided_empty (config : Configuration) : Divided (Catalog.empty config) where
  sound := (FreeSpace.sound_ofCapacity _).1
  ascending := by intro set hset; cases hset
  perm := List.Perm.of_eq (FreeSpace.sound_ofCapacity _).2

/-- For a cycle without an initial reserve nothing is allocated. -/
theorem regions_eq_nil_of_allocate {space after : FreeSpace} {reserve count : Nat}
    {regions : List Region} (h : space.allocate (reserve * count) = some (regions, after)) :
    reserve = 0 → regions = [] := by
  rintro rfl
  rw [Nat.zero_mul, FreeSpace.allocate_zero] at h
  cases h
  rfl

/-- The table of a created cycle holds the tracks that were allocated for it. -/
theorem table_fileCycle {config : Configuration} {r : Creation} (hr : WellFormed config r)
    (lead : LeadItem) (number : Nat) (file : FileId) (call : Call) {regions : List Region}
    (hpos : ∀ region ∈ regions, 0 < region.count) (hnone : r.initialReserve = 0 → regions = []) :
    (r.fileCycle lead number file call regions).item.table =
        ({} : ExtentTable).insertRegions 0 regions ∧
      (r.fileCycle lead number file call regions).item.table.Ascending ∧
      (r.fileCycle lead number file call regions).item.table.packTracks.Perm
        (tracksIn regions) := by
  have htable : (r.fileCycle lead number file call regions).item.table =
      ({} : ExtentTable).insertRegions 0 regions := by
    unfold Creation.fileCycle FileCycle.assign Creation.item
    dsimp only
    cases hr.kind with
    | tape htype _ _ hreserve =>
        -- a tape reserves nothing, so nothing was allocated for it
        have hnot : ¬r.fileType = .massStorage := by
          rw [htype]
          decide
        rw [if_neg hnot, hnone hreserve]
        rfl
    | disk htype _ _ _ _ =>
        rw [if_pos htype]
        rfl
  obtain ⟨hascending, -, hpack, -⟩ := ExtentTable.ascending_empty.insertRegions 0 hpos
    fun _ hin => (by cases hin)
  rw [htable]
  exact ⟨rfl, hascending, hpack.trans (List.Perm.of_eq (List.append_nil _))⟩

namespace Divided

variable {c : Catalog}

/-- The tracks of a file set and the free ones are told apart. -/
theorem nodup_set (h : Divided c) (hordered : Ordered c.sets) {set : FileSet}
    (hset : set ∈ c.sets) : (set.packTracks ++ tracksIn c.space.regions).Nodup := by
  have hall := h.perm.nodup_iff.2 List.nodup_range
  have hmoved := ((perm_others hordered hset FileSet.packTracks).append_right
    (tracksIn c.space.regions)).nodup_iff.1 hall
  refine hmoved.sublist (List.Sublist.append ?_ (List.Sublist.refl _))
  exact List.sublist_append_left _ _

/-- A track that belongs to a cycle is one of the pack. -/
theorem track_lt (h : Divided c) {set : FileSet} (hset : set ∈ c.sets) :
    ∀ track ∈ set.packTracks, track < c.space.capacity := by
  intro track htrack
  refine List.mem_range.1 (h.perm.mem_iff.1 (List.mem_append_left _ ?_))
  exact List.mem_flatMap.2 ⟨set, hset, htrack⟩

/-- A file set has the tracks of a cycle of it and those of the others. -/
theorem perm_packTracks (hc : c.Indexed) {set : FileSet} (hset : set ∈ c.sets) {cycle : FileCycle}
    (hcycle : cycle ∈ set.cycles) :
    set.packTracks.Perm (cycle.item.table.packTracks ++ (set.erase cycle.file).packTracks) := by
  obtain ⟨before, rest, hsplit, -, herase⟩ := FileSet.exists_split (hc.nodup set hset) hcycle cycle
  unfold FileSet.packTracks
  rw [hsplit, herase]
  exact (List.perm_middle (a := cycle)).flatMap_right _

/-- The tracks of a cycle can be given back. -/
theorem release (h : Divided c) (hc : c.Indexed) {set : FileSet} (hset : set ∈ c.sets)
    {cycle : FileCycle} (hcycle : cycle ∈ set.cycles) :
    (tracksIn cycle.item.table.packRegions ++ tracksIn c.space.regions).Nodup ∧
      ∀ track ∈ tracksIn cycle.item.table.packRegions, track < c.space.capacity := by
  have hparts := perm_packTracks hc hset hcycle
  have hnodup := (hparts.append_right _).nodup_iff.1 (h.nodup_set hc.ordered hset)
  refine ⟨hnodup.sublist (List.Sublist.append (List.sublist_append_left _ _)
    (List.Sublist.refl _)), ?_⟩
  intro track htrack
  exact h.track_lt hset track (hparts.mem_iff.2 (List.mem_append_left _ htrack))

end Divided

/-! ### Sharing out the tracks of a set -/

/-- A set and the free space share out what the set of its name and the free space had before: no
track is lost and none is doubled. -/
structure Shares (c : Catalog) (set : FileSet) (space : FreeSpace) : Prop where
  sound : space.Sound
  capacity_eq : space.capacity = c.space.capacity
  ascending : ∀ d ∈ set.cycles, d.item.table.Ascending
  perm : (set.packTracks ++ tracksIn space.regions).Perm
    ((c.find? set.name).toList.flatMap FileSet.packTracks ++ tracksIn c.space.regions)

section Shares

variable {c : Catalog} {old : FileSet}

/-- The tracks of the set of a name. -/
theorem tracks_find? (hc : c.Indexed) (hold : old ∈ c.sets) :
    (c.find? old.name).toList.flatMap FileSet.packTracks = old.packTracks := by
  rw [(find?_eq_some_iff hc.ordered).2 ⟨hold, rfl⟩, Option.toList_some, List.flatMap_singleton]

namespace Divided

/-- A set that keeps its tracks. -/
theorem shares_kept (h : Divided c) (hc : c.Indexed) (hold : old ∈ c.sets) {set : FileSet}
    (hname : set.name = old.name) (hascending : ∀ d ∈ set.cycles, d.item.table.Ascending)
    (hsame : set.packTracks = old.packTracks) : Shares c set c.space := by
  refine ⟨h.sound, rfl, hascending, List.Perm.of_eq ?_⟩
  rw [hname, tracks_find? hc hold, hsame]

/-- A set in which a cycle is replaced by one on the same tracks. -/
theorem shares_modify (h : Divided c) (hc : c.Indexed) (hold : old ∈ c.sets)
    {cycle after : FileCycle} (hcycle : cycle ∈ old.cycles)
    (htable : after.item.table = cycle.item.table) :
    Shares c (old.modify cycle.file fun _ => after) c.space := by
  have hascending : after.item.table.Ascending := htable ▸ h.ascending old hold cycle hcycle
  refine h.shares_kept hc hold rfl
    (FileSet.forall_cycles_modify (h.ascending old hold) hascending) ?_
  obtain ⟨before, rest, hsplit, hmodify, -⟩ := FileSet.exists_split (hc.nodup old hold) hcycle after
  unfold FileSet.packTracks
  rw [hmodify, hsplit, List.flatMap_append, List.flatMap_append, List.flatMap_cons,
    List.flatMap_cons, htable]

/-- A set whose guard is set or taken off. -/
theorem shares_guarded (h : Divided c) (hc : c.Indexed) (hold : old ∈ c.sets) (guarded : Bool) :
    Shares c (guardedSet old guarded) c.space := by
  refine h.shares_kept hc hold rfl ?_ ?_
  · intro d hd
    obtain ⟨e, he, rfl⟩ := List.mem_map.1 hd
    exact h.ascending old hold e he
  · unfold FileSet.packTracks guardedSet
    rw [List.flatMap_map]

/-- A set to which a cycle is added on tracks that were free. -/
theorem shares_added (h : Divided c) (hc : c.Indexed) {r : Creation} (hr : WellFormed c.config r)
    {client : Client} (hset : c.setFor r client = .ok old) {count : Nat} {regions : List Region}
    {space : FreeSpace} (hspace : c.space.allocate (r.initialReserve * count) = some (regions, space))
    (number : Nat) (newest : Bool) (file : FileId) (call : Call) :
    Shares c (old.added number newest (r.fileCycle old.lead number file call regions)) space := by
  obtain ⟨hsound, hcapacity, hpos, -, hperm⟩ := h.sound.allocate_spec hspace
  obtain ⟨-, hascending, hnew⟩ := table_fileCycle hr old.lead number file call hpos
    (regions_eq_nil_of_allocate hspace)
  have hbefore : (c.find? old.name).toList.flatMap FileSet.packTracks = old.packTracks ∧
      ∀ d ∈ old.cycles, d.item.table.Ascending := by
    rcases setFor_cases hset with hmem | ⟨rfl, hfresh⟩
    · exact ⟨tracks_find? hc hmem, h.ascending old hmem⟩
    · have hname : (r.newSet client).name = r.name := rfl
      rw [hname, hfresh]
      exact ⟨rfl, fun d hd => (by cases hd)⟩
  refine ⟨hsound, hcapacity, ?_, ?_⟩
  · intro d hd
    rcases FileSet.mem_cycles_added.1 hd with hd | rfl
    · exact hbefore.2 d hd
    · exact hascending
  · rw [FileSet.name_added, hbefore.1, FileSet.packTracks, FileSet.cycles_added,
      List.flatMap_append, List.flatMap_singleton, List.append_assoc]
    exact ((hnew.append_right _).trans hperm.symm).append_left _

/-- A set from which a cycle is dropped, its tracks given back. -/
theorem shares_dropped (h : Divided c) (hc : c.Indexed) (hold : old ∈ c.sets) {cycle : FileCycle}
    (hcycle : cycle ∈ old.cycles) :
    Shares c (old.erase cycle.file).refresh
      (releaseAll c.space cycle.item.table.packRegions) := by
  obtain ⟨hnodup, hbound⟩ := h.release hc hold hcycle
  obtain ⟨-, hsound, hcapacity, hperm⟩ := releaseAll_spec h.sound _ hnodup hbound
  refine ⟨hsound, hcapacity, ?_, ?_⟩
  · intro d hd
    exact h.ascending old hold d (FileSet.mem_cycles_erase.1 hd).1
  · rw [FileSet.name_refresh, FileSet.name_erase, tracks_find? hc hold]
    refine (hperm.append_left _).trans ?_
    refine (List.perm_append_comm_assoc _ _ _).trans ?_
    rw [← List.append_assoc]
    exact ((perm_packTracks hc hold hcycle).symm).append_right _

/-- A set in which a cycle has more tracks behind it, which were free. -/
theorem shares_grown (h : Divided c) (hc : c.Indexed) (hold : old ∈ c.sets) {cycle : FileCycle}
    (hcycle : cycle ∈ old.cycles) {region : Region} {space : FreeSpace} {table : ExtentTable}
    (hfill : fill c.space cycle.item.table (cycle.item.table.gaps region) = (none, space, table))
    (granules now : Nat) :
    Shares c (old.modify cycle.file fun _ => grown cycle table granules now) space := by
  have htable := h.ascending old hold cycle hcycle
  obtain ⟨hgaps, hout⟩ := htable.gaps region
  obtain ⟨hsound, hcapacity, hafter, -, -, hperm⟩ := fill_spec h.sound htable hgaps
    (fun track htrack => (hout track htrack).2) hfill
  obtain ⟨before, rest, hsplit, hmodify, -⟩ := FileSet.exists_split (hc.nodup old hold) hcycle
    (grown cycle table granules now)
  refine ⟨hsound, hcapacity, FileSet.forall_cycles_modify (h.ascending old hold) hafter, ?_⟩
  rw [FileSet.name_modify, tracks_find? hc hold]
  unfold FileSet.packTracks
  rw [hmodify, hsplit, List.flatMap_append, List.flatMap_append, List.flatMap_cons,
    List.flatMap_cons, List.append_assoc, List.append_assoc, List.append_assoc, List.append_assoc]
  -- the tracks of the other cycles stand between those that move
  exact (perm_around hperm _).append_left _

end Divided

end Shares

namespace Step

variable {call : Call} {c : Catalog} {set : FileSet} {space : FreeSpace} {last : Nat}

/-- What a step puts in place shares out the tracks that were there. -/
theorem shares (hs : Step call c set space last) (h : Divided c) (hc : c.Indexed) :
    Shares c set space := by
  cases hs with
  | enter hr hset _ _ hspace => exact h.shares_added hc hr hset hspace _ _ _ _
  | change hset hcycle hstep => exact h.shares_modify hc hset hcycle hstep.keeps.2.2
  | catalog hset hcycle _ hstep =>
      obtain ⟨hsound, hcapacity, hascending, hperm⟩ :=
        h.shares_modify hc hset hcycle hstep.keeps.2.2
      exact ⟨hsound, hcapacity, hascending, hperm⟩
  | drop hset hcycle => exact h.shares_dropped hc hset hcycle
  | grow hset hcycle _ _ hfill => exact h.shares_grown hc hset hcycle hfill _ _
  | guard hset guarded => exact h.shares_guarded hc hset guarded

/-- **Every step keeps the pack divided** among the cycles and the free space. -/
theorem divided (hs : Step call c set space last) (h : Divided c) (hc : c.Indexed) :
    Divided ({ c with space := space, lastFile := last }.put set) := by
  obtain ⟨hsound, hcapacity, hascending, hperm⟩ := hs.shares h hc
  refine ⟨?_, forall_sets_put hc.ordered h.ascending hascending, ?_⟩
  · rw [space_put]
    exact hsound
  · rw [space_put, hcapacity]
    refine List.Perm.trans ?_ h.perm
    refine ((perm_put (c := { c with space := space, lastFile := last }) hc.ordered set
      FileSet.packTracks (by
        intro hnone
        rw [FileSet.packTracks, hnone]
        rfl)).append_right _).trans ?_
    refine List.Perm.trans ?_
      ((perm_find? hc.ordered set.name FileSet.packTracks).append_right _).symm
    rw [List.append_assoc, List.append_assoc]
    -- the tracks of the other sets stand between those that are shared out
    exact perm_around hperm _

/-- No step changes the size of the pack. -/
theorem capacity_eq (hs : Step call c set space last) (h : Divided c) (hc : c.Indexed) :
    space.capacity = c.space.capacity := (hs.shares h hc).capacity_eq

end Step

end Catalog

end FileDirectory
