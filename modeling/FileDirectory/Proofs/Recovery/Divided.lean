/-
**A recovered pack is divided.**

Whatever an image says, recovery either fails or claims the tracks of every cycle that it takes over;
a track that is claimed was free, and nobody else can claim it.  So in every recovered catalog the
pack is divided among the cycles and the free space.

Main results:

* `FileDirectory.Recovery.claimAll_spec`, `FileDirectory.Recovery.claimAll_of_subset` — tracks that
  were claimed, and tracks that can be;
* `FileDirectory.Recovery.claimAll_congr` — it does not matter how they are cut into regions;
* `FileDirectory.Recovery.exists_restart_iff` — when what is left can start again;
* `FileDirectory.Recovery.divided_rebuild` — the pack of a recovered catalog is divided.
-/

import FileDirectory.Proofs.Catalog.Divided
import FileDirectory.Proofs.Recovery.Healthy
import FileDirectory.Proofs.Recovery.Remains

set_option autoImplicit false

namespace FileDirectory.Recovery

/-- Tracks that were claimed in turn were free and apart. -/
theorem claimAll_spec {space after : FreeSpace} (h : space.Sound) {regions : List Region}
    (hclaim : claimAll space regions = .ok after) :
    after.Sound ∧ after.capacity = space.capacity ∧
      (tracksIn space.regions).Perm (tracksIn regions ++ tracksIn after.regions) := by
  induction regions generalizing space with
  | nil =>
      cases hclaim
      exact ⟨h, rfl, List.Perm.refl _⟩
  | cons r regions ih =>
      rw [claimAll] at hclaim
      cases hfirst : space.claim r with
      | mk taken between =>
          rw [hfirst] at hclaim
          cases taken with
          | false => cases hclaim
          | true =>
              obtain ⟨other, hother, hsound, hcapacity, hperm⟩ :=
                h.claim_of_subset (FreeSpace.subset_of_claim hfirst)
              obtain rfl : between = other := congrArg Prod.snd (hfirst.symm.trans hother)
              obtain ⟨hafter, hcapacityAfter, hpermAfter⟩ := ih hsound hclaim
              refine ⟨hafter, hcapacityAfter.trans hcapacity, ?_⟩
              rw [tracksIn_cons, List.append_assoc]
              exact hperm.trans (hpermAfter.append_left _)

/-- Regions that are free and apart can be claimed in turn. -/
theorem claimAll_of_subset {space : FreeSpace} (h : space.Sound) (regions : List Region)
    (hnodup : (tracksIn regions).Nodup)
    (hsub : ∀ track ∈ tracksIn regions, track ∈ tracksIn space.regions) :
    ∃ after, claimAll space regions = .ok after ∧ after.Sound ∧
      after.capacity = space.capacity ∧
      (tracksIn space.regions).Perm (tracksIn regions ++ tracksIn after.regions) := by
  induction regions generalizing space with
  | nil => exact ⟨space, rfl, h, rfl, List.Perm.refl _⟩
  | cons r regions ih =>
      rw [tracksIn_cons] at hnodup hsub
      obtain ⟨hr, hrest, hapart⟩ := List.nodup_append.1 hnodup
      obtain ⟨between, hclaim, hsound, hcapacity, hperm⟩ := h.claim_of_subset
        fun track htrack => hsub track (List.mem_append_left _ (Region.mem_tracks.2 htrack))
      obtain ⟨after, hafter, hsound', hcapacity', hperm'⟩ := ih hsound hrest (by
        intro track htrack
        have hin := hperm.mem_iff.1 (hsub track (List.mem_append_right _ htrack))
        rcases List.mem_append.1 hin with hr' | hin
        · exact absurd rfl (hapart track hr' track htrack)
        · exact hin)
      refine ⟨after, ?_, hsound', hcapacity'.trans hcapacity, ?_⟩
      · rw [claimAll, hclaim]
        exact hafter
      · rw [tracksIn_cons, List.append_assoc]
        exact hperm.trans (hperm'.append_left _)

/-- Which tracks are claimed counts, not in which regions they are. -/
theorem claimAll_congr {space after : FreeSpace} (h : space.Sound) {regions regions' : List Region}
    (htracks : (tracksIn regions).Perm (tracksIn regions'))
    (hclaim : claimAll space regions = .ok after) : claimAll space regions' = .ok after := by
  obtain ⟨hafter, hcapacity, hperm⟩ := claimAll_spec h hclaim
  have hperm := hperm.trans (htracks.append_right _)
  have hnodup := hperm.nodup_iff.1 h.separated.nodup_tracksIn
  obtain ⟨after', hclaim', hafter', hcapacity', hperm'⟩ := claimAll_of_subset h regions'
    (List.nodup_append.1 hnodup).1
    fun track htrack => hperm.mem_iff.2 (List.mem_append_left _ htrack)
  have hrest := (List.perm_append_left_iff _).1 (hperm'.symm.trans hperm)
  rw [hclaim', hafter'.eq_of_perm hafter (hcapacity'.trans hcapacity.symm) hrest]

/-- **What is left can start again exactly if its tracks are apart and inside the pack.** -/
theorem exists_restart_iff {config : Configuration} {rs : List Remains} :
    (∃ c, restart config rs = .ok c) ↔
      (tracksIn (rs.flatMap Remains.regions)).Nodup ∧
        ∀ track ∈ tracksIn (rs.flatMap Remains.regions),
          track < min config.packTracks Word.maxValue := by
  obtain ⟨hsound, hrange⟩ := FreeSpace.sound_ofCapacity (min config.packTracks Word.maxValue)
  have hspace : (Catalog.empty config).space =
      FreeSpace.ofCapacity (min config.packTracks Word.maxValue) := rfl
  rw [restart, hspace]
  constructor
  · rintro ⟨c, hrestart⟩
    obtain ⟨space, hclaim, -⟩ := map_eq_ok.1 hrestart
    obtain ⟨-, -, hperm⟩ := claimAll_spec hsound hclaim
    rw [hrange] at hperm
    refine ⟨(List.nodup_append.1 (hperm.nodup_iff.1 List.nodup_range)).1, ?_⟩
    intro track htrack
    exact List.mem_range.1 (hperm.mem_iff.2 (List.mem_append_left _ htrack))
  · rintro ⟨hnodup, hinside⟩
    obtain ⟨space, hclaim, -⟩ := claimAll_of_subset hsound _ hnodup (by
      intro track htrack
      rw [hrange]
      exact List.mem_range.2 (hinside track htrack))
    exact ⟨_, map_eq_ok.2 ⟨space, hclaim, rfl⟩⟩

/-- File sets have the tracks of what is left of them. -/
theorem packTracks_setsFrom (last : Nat) (rs : List Remains) :
    (setsFrom last rs).flatMap FileSet.packTracks = tracksIn (rs.flatMap Remains.regions) := by
  have hcycles : ∀ set : FileSet, set.packTracks =
      tracksIn (Remains.regions ⟨set.lead, set.cycles.map FileCycle.item⟩) := by
    intro set
    rw [Remains.regions, List.flatMap_map, tracksIn, List.flatMap_assoc]
    rfl
  calc (setsFrom last rs).flatMap FileSet.packTracks
      = (setsFrom last rs).flatMap fun set =>
          tracksIn (Remains.regions ⟨set.lead, set.cycles.map FileCycle.item⟩) :=
        List.flatMap_congr fun set _ => hcycles set
    _ = rs.flatMap fun r => tracksIn r.regions := by
        conv_rhs => rw [← remains_setsFrom last rs]
        rw [List.flatMap_map]
    _ = tracksIn (rs.flatMap Remains.regions) := List.flatMap_assoc.symm

/-- The tables of what is left stand in order. -/
theorem ascending_remains {device : Device} {found : List Found} (h : read device = .ok found) :
    ∀ r ∈ remains found, ∀ m ∈ r.items, m.table.Ascending := by
  intro r hr m hm
  obtain ⟨main, hmain, -, rfl⟩ := items_of_mem_remains hr m hm
  have hempty := (identity_of_mains h hmain).1
  change (((allocationsOf found main.1.key).flatMap FoundExtents.extents).foldl
    ExtentTable.insert main.1.table).Ascending
  rw [hempty]
  exact ExtentTable.ascending_empty.foldl_insert _

/-- **The pack of a recovered catalog is divided**, whatever image it was recovered from. -/
theorem divided_rebuild {config : Configuration} {device : Device} {found : List Found}
    {r : Rebuilt} (hread : read device = .ok found) (h : rebuild config found = .ok r) :
    r.catalog.Divided ∧ r.catalog.config = config ∧
      r.catalog.space.capacity = min config.packTracks Word.maxValue := by
  obtain ⟨-, hrestart⟩ := rebuild_iff.1 ⟨r, h, rfl⟩
  have hascending : ∀ set ∈ r.catalog.sets, ∀ d ∈ set.cycles, d.item.table.Ascending :=
    fun set hset d hd => ascending_remains hread _ (mem_remains_of_restart hrestart hset) d.item
      (List.mem_map_of_mem hd)
  obtain ⟨hsound, hrange⟩ := FreeSpace.sound_ofCapacity (min config.packTracks Word.maxValue)
  obtain ⟨space, hclaim, hcatalog⟩ := map_eq_ok.1 hrestart
  obtain ⟨hafter, hcapacity, hperm⟩ := claimAll_spec hsound hclaim
  rw [← hcatalog] at hascending ⊢
  refine ⟨⟨hafter, hascending, ?_⟩, rfl, hcapacity⟩
  dsimp only
  rw [packTracks_setsFrom, hcapacity]
  exact hperm.symm.trans (List.Perm.of_eq hrange)

end FileDirectory.Recovery

namespace FileDirectory.Directory

theorem divided_recover {config : Configuration} {device device' : Device} {d : Directory}
    (h : recover config device = (.ok d, device')) : d.catalog.Divided := by
  obtain ⟨found, r, t, staging, hread, hbuild, -, -, rfl⟩ := recover_eq_ok h
  exact (Recovery.divided_rebuild hread hbuild).1

end FileDirectory.Directory
