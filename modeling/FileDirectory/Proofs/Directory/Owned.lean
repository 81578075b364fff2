/-
**Every track of the pack has one owner.**

In whatever state a directory is, made empty or recovered from any image, a track of the pack belongs
to exactly one extent of one cycle or is free.  So the tracks of a cycle that is dropped can always be
given back, and no track is lost or handed out twice.

Main definitions:

* `FileDirectory.Catalog.packRegions`, `FileDirectory.Catalog.allocated` — the regions of the pack
  that belong to cycles, and how many tracks they have;
* `FileDirectory.Catalog.Owned` — every track of the pack has one owner.

Main results:

* `FileDirectory.Catalog.Divided.owned` — so it is when the pack is divided;
* `FileDirectory.Directory.divided_of_reached` — the pack is divided in every state;
* `FileDirectory.Directory.owned_of_reached` — every track has one owner in every state.
-/

import FileDirectory.Proofs.Directory.Reached
import FileDirectory.Proofs.Recovery.Divided

set_option autoImplicit false

namespace FileDirectory

namespace Catalog

/-! ### Regions that belong to cycles -/

/-- The regions of the pack that belong to cycles. -/
def packRegions (c : Catalog) : List Region := c.cycles.flatMap fun d => d.item.table.packRegions

/-- The number of tracks that belong to cycles. -/
def allocated (c : Catalog) : Nat :=
  (c.cycles.map fun d => d.item.table.tracks).foldr (· + ·) 0

theorem tracksIn_packRegions (c : Catalog) :
    tracksIn c.packRegions = c.sets.flatMap FileSet.packTracks := by
  rw [packRegions, cycles, tracksIn, List.flatMap_assoc, List.flatMap_assoc]
  rfl

theorem length_tracksIn_packRegions (c : Catalog) : (tracksIn c.packRegions).length = c.allocated := by
  rw [packRegions, allocated]
  induction c.cycles with
  | nil => rfl
  | cons d ds ih =>
      rw [List.flatMap_cons, tracksIn_append, List.length_append, ih, List.map_cons, List.foldr_cons,
        ← ExtentTable.length_packTracks]
      rfl

theorem mem_cycles {c : Catalog} {d : FileCycle} :
    d ∈ c.cycles ↔ ∃ set ∈ c.sets, d ∈ set.cycles := List.mem_flatMap

/-! ### One owner for every track -/

/-- Every track of the pack belongs to one extent of one cycle, or is free. -/
structure Owned (c : Catalog) : Prop where
  /-- No cycle has an empty region. -/
  nonempty : ∀ r ∈ c.packRegions, 0 < r.count
  /-- No two regions share a track, be they of one cycle or of two. -/
  disjoint : c.packRegions.Pairwise fun r s => ∀ track ∈ r, track ∉ s
  inside : ∀ r ∈ c.packRegions, r.limit ≤ c.space.capacity
  /-- The free tracks are those of the pack that belong to no cycle. -/
  free_iff : ∀ track, (∃ f ∈ c.space.regions, track ∈ f) ↔
    track < c.space.capacity ∧ ∀ r ∈ c.packRegions, track ∉ r
  /-- The tracks of a cycle can be given back, region by region. -/
  takesBack : ∀ d ∈ c.cycles, takesBack c.space d.item.table.packRegions = true

/-- **Where the pack is divided, every track has one owner.** -/
theorem Divided.owned {c : Catalog} (h : Divided c) (hc : c.Indexed) : Owned c := by
  have hperm := h.perm
  rw [← tracksIn_packRegions] at hperm
  obtain ⟨hcycles, -, hapart⟩ := List.nodup_append.1 (hperm.nodup_iff.2 List.nodup_range)
  have hnonempty : ∀ r ∈ c.packRegions, 0 < r.count := by
    intro r hr
    obtain ⟨d, hd, hin⟩ := List.mem_flatMap.1 hr
    obtain ⟨e, he, rfl⟩ := List.mem_map.1 hin
    obtain ⟨set, hset, hd⟩ := mem_cycles.1 hd
    exact (h.ascending set hset d hd).nonempty e he
  constructor
  case nonempty => exact hnonempty
  case disjoint =>
    refine (List.nodup_flatMap.1 hcycles).2.imp ?_
    intro r s hdisjoint track hr hs
    exact hdisjoint (Region.mem_tracks.2 hr) (Region.mem_tracks.2 hs)
  case inside =>
    intro r hr
    -- the last track of a region is one of the pack
    have hpos := hnonempty r hr
    have hlimit : r.limit = r.first + r.count := rfl
    have hlast : r.limit - 1 ∈ tracksIn c.packRegions :=
      mem_tracksIn.2 ⟨r, hr, by rw [Region.mem_iff]; omega⟩
    have := List.mem_range.1 (hperm.mem_iff.1 (List.mem_append_left _ hlast))
    omega
  case free_iff =>
    intro track
    rw [← mem_tracksIn]
    constructor
    · intro hfree
      refine ⟨h.sound.bounded track hfree, ?_⟩
      intro r hr hin
      exact hapart track (mem_tracksIn.2 ⟨r, hr, hin⟩) track hfree rfl
    · rintro ⟨hlt, hout⟩
      rcases List.mem_append.1 (hperm.mem_iff.2 (List.mem_range.2 hlt)) with hin | hin
      · obtain ⟨r, hr, htrack⟩ := mem_tracksIn.1 hin
        exact absurd htrack (hout r hr)
      · exact hin
  case takesBack =>
    intro d hd
    obtain ⟨set, hset, hd⟩ := mem_cycles.1 hd
    obtain ⟨hnodup, hbound⟩ := h.release hc hset hd
    exact (releaseAll_spec h.sound _ hnodup hbound).1

/-- No track is lost. -/
theorem Divided.free_add_allocated {c : Catalog} (h : Divided c) :
    c.space.free + c.allocated = c.space.capacity := by
  have hlength := h.perm.length_eq
  rw [← tracksIn_packRegions, List.length_append, length_tracksIn_packRegions, List.length_range,
    ← h.sound.free_eq] at hlength
  omega

end Catalog

/-! ### Every state -/

namespace Directory

open Catalog

/-- The pack is divided in every state of a directory that was made empty or recovered. -/
theorem divided_of_reached {config : Configuration} {d : Directory}
    (h : Reached (fun d => Made config d ∨ Recovered config d) d) :
    d.catalog.Indexed ∧ d.catalog.Divided ∧
      d.catalog.space.capacity = min config.packTracks Word.maxValue := by
  refine h.induction (P := fun c => Divided c ∧
    c.space.capacity = min config.packTracks Word.maxValue) ?_ ?_
  · rintro d (hmade | hrecovered)
    · rw [hmade.catalog_eq]
      exact ⟨indexed_empty config, divided_empty config, rfl⟩
    · refine ⟨hrecovered.indexed, ?_⟩
      obtain ⟨device, device', hrecover⟩ := hrecovered
      obtain ⟨found, r, t, staging, hread, hbuild, -, -, rfl⟩ := recover_eq_ok hrecover
      obtain ⟨hdivided, -, hcapacity⟩ := Recovery.divided_rebuild hread hbuild
      exact ⟨hdivided, hcapacity⟩
  · rintro call c set space last hindexed ⟨hdivided, hcapacity⟩ hstep
    refine ⟨hstep.divided hdivided hindexed, ?_⟩
    rw [space_put]
    exact (hstep.capacity_eq hdivided hindexed).trans hcapacity

/-- **Every track of the pack has one owner in every state** of a directory that was made empty or
recovered from any image: the regions of the cycles are not empty, apart and inside the pack, what
belongs to no cycle is free, the free tracks and those of the cycles add up to the pack, and the
tracks of a cycle that is dropped are all taken back. -/
theorem owned_of_reached {config : Configuration} {d : Directory}
    (h : Reached (fun d => Made config d ∨ Recovered config d) d) :
    d.catalog.Owned ∧ d.catalog.space.capacity = min config.packTracks Word.maxValue ∧
      d.freeTracks + d.catalog.allocated = min config.packTracks Word.maxValue := by
  obtain ⟨hindexed, hdivided, hcapacity⟩ := divided_of_reached h
  exact ⟨hdivided.owned hindexed, hcapacity, hdivided.free_add_allocated.trans hcapacity⟩

theorem owned_of_reached_crowded :
    crowded.catalog.allocated = 3 ∧ crowded.catalog.Owned ∧
      crowded.catalog.space.capacity = min 4 Word.maxValue ∧
      crowded.freeTracks + crowded.catalog.allocated = min 4 Word.maxValue :=
  ⟨rfl, owned_of_reached (reached_crowded (Or.inl (Or.inl rfl)))⟩

end Directory

end FileDirectory
