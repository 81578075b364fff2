/-
**A directory accepts its own image.**

As long as no operation has met an error of the medium, the image of a directory is accepted by
recovery exactly if no cycle has more than 448 extents: the allocation records of a cycle are numbered
in six bits, so that the sixty-fifth is taken for the first.  What is recovered then is what is left
of the file sets: every set that has a live cycle, with its live cycles and the tracks of these.

Main definitions:

* `FileDirectory.Catalog.liveTracks` — the pack tracks of the live cycles.

Main results:

* `FileDirectory.Recovery.restart_left` — what is left can claim its tracks;
* `FileDirectory.Directory.Mirrored.recover_iff` — when the image of a directory is accepted, and the
  catalog that is recovered;
* `FileDirectory.Directory.accepts_after_iff` — when a directory accepts its own image.
-/

import FileDirectory.Proofs.Directory.Mirrored
import FileDirectory.Proofs.Directory.Outlined
import FileDirectory.Proofs.Recovery.Divided
import FileDirectory.Proofs.Recovery.Mirror

set_option autoImplicit false

namespace FileDirectory

open Recovery

/-! ### Claiming the tracks of what is left -/

namespace Catalog

/-- The pack tracks of the live cycles. -/
def liveTracks (c : Catalog) : List Nat :=
  c.sets.flatMap fun set =>
    (set.cycles.filter fun d => d.item.state = .live).flatMap fun d => d.item.table.packTracks

/-- The tracks of the live cycles are some of those of all cycles. -/
theorem sublist_liveTracks (c : Catalog) : c.liveTracks.Sublist (c.sets.flatMap FileSet.packTracks) := by
  unfold liveTracks FileSet.packTracks
  exact List.Sublist.flatMap_right _ fun set _ => List.filter_sublist.flatMap _

/-- What is left of a file set has the tracks of its live cycles. -/
theorem perm_tracks_leftOf (set : FileSet) :
    (tracksIn (set.left.toList.flatMap Remains.regions)).Perm
      ((set.cycles.filter fun d => d.item.state = .live).flatMap
        fun d => d.item.table.packTracks) := by
  have hitems : set.left.toList.flatMap Remains.regions =
      (set.byNumber.filter fun d => d.item.state = .live).flatMap
        fun d => d.item.table.packRegions := by
    unfold FileSet.left
    dsimp only
    split
    · rename_i hnone
      rw [List.map_eq_nil_iff.1 hnone]
      rfl
    · rw [Option.toList_some, List.flatMap_singleton, Remains.regions, List.flatMap_map]
      simp only [MainItem.table_left]
  rw [hitems]
  unfold tracksIn
  rw [List.flatMap_assoc]
  exact ((List.mergeSort_perm set.cycles _).filter _).flatMap_right _

/-- What is left has the tracks of the live cycles. -/
theorem perm_tracks_left (c : Catalog) :
    (tracksIn (c.left.flatMap Remains.regions)).Perm c.liveTracks := by
  unfold left liveTracks
  generalize c.sets = sets
  induction sets with
  | nil => exact List.Perm.refl _
  | cons set sets ih =>
      have hset := perm_tracks_leftOf set
      rw [List.flatMap_cons, List.filterMap_cons]
      cases hleft : set.left with
      | none =>
          rw [hleft] at hset
          exact (ih.append_left []).trans (hset.append_right _)
      | some r =>
          rw [hleft, Option.toList_some, List.flatMap_singleton] at hset
          dsimp only
          rw [List.flatMap_cons, tracksIn_append]
          exact hset.append ih

end Catalog

/-- **What is left can claim its tracks**: the tracks that are free then are those that no live cycle
has. -/
theorem Recovery.restart_left {config : Configuration} {c : Catalog} (h : c.Partitioned)
    (hcapacity : c.space.capacity = min config.packTracks Word.maxValue) :
    ∃ e, restart config c.left = .ok e ∧ e.space.Sound ∧
      (List.range c.space.capacity).Perm (c.liveTracks ++ tracksIn e.space.regions) := by
  obtain ⟨hsound, hrange⟩ := FreeSpace.sound_ofCapacity (min config.packTracks Word.maxValue)
  have htracks : tracksIn (FreeSpace.ofCapacity (min config.packTracks Word.maxValue)).regions =
      List.range c.space.capacity := by rw [hrange, hcapacity]
  have hall := h.perm.nodup_iff.2 List.nodup_range
  have hnodup : c.liveTracks.Nodup := (List.nodup_append.1 hall).1.sublist c.sublist_liveTracks
  have hperm := c.perm_tracks_left
  obtain ⟨after, hclaim, hsound', -, hperm'⟩ := claimAll_of_subset hsound
    (c.left.flatMap Remains.regions) (hperm.nodup_iff.2 hnodup) (by
      intro track htrack
      rw [htracks]
      refine h.perm.mem_iff.1 (List.mem_append_left _ ?_)
      exact c.sublist_liveTracks.subset (hperm.mem_iff.1 htrack))
  rw [htracks] at hperm'
  have hrestart : restart config c.left = .ok {
      config := config
      sets := setsFrom 0 c.left
      space := after
      lastFile := (c.left.flatMap Remains.items).length } := by
    have hempty : claimAll (Catalog.empty config).space (c.left.flatMap Remains.regions) =
      .ok after := hclaim
    rw [restart, hempty]
    rfl
  exact ⟨_, hrestart, hsound', hperm'.trans (hperm.append_right _)⟩

/-! ### The ledger of a directory -/

/-- What is recorded of the file sets can be attributed to them. -/
theorem Catalog.Fit.attributable {config : Configuration} {c : Catalog} (h : c.Fit config) :
    ∀ set ∈ c.sets, set.Attributable := fun _ hset => (h.recordable.set hset).attributable

namespace Directory

section Ledger

variable {config : Configuration} {d : Directory} {store : Store}

/-- **When the image of a directory is accepted, and the catalog that is recovered.** -/
theorem Mirrored.recover_iff (h : Mirrored config d) (hmirrors : store.Mirrors d.catalog)
    {catalog : Catalog} :
    (∃ e, (recover config store.device.copy).1 = .ok e ∧ e.catalog = catalog) ↔
      (∀ set ∈ d.catalog.sets, set.Numbered) ∧ restart config d.catalog.left = .ok catalog := by
  have hextents : ∀ set ∈ d.catalog.sets, ∀ c ∈ set.cycles, ∀ e ∈ c.item.table.extents,
      e.stored = e := fun set hset c hc e he => h.partitioned.stored_extent hset hc he
  rw [(hmirrors.carries h.recordable).recover_iff h.indexed h.fit.attributable hextents,
    Catalog.rebuilt_eq fun set hset c hc => (h.partitioned.tables set hset c hc).canonical]

theorem Mirrored.recover_of_numbered (h : Mirrored config d) (hmirrors : store.Mirrors d.catalog)
    (hnumbered : ∀ set ∈ d.catalog.sets, set.Numbered) :
    ∃ e, (recover config store.device.copy).1 = .ok e := by
  obtain ⟨catalog, hrestart, -⟩ := restart_left h.partitioned h.capacity
  obtain ⟨e, he, -⟩ := (h.recover_iff hmirrors).2 ⟨hnumbered, hrestart⟩
  exact ⟨e, he⟩

end Ledger

/-! ### Accepting one's own image -/

/-- **A directory accepts its own image exactly if no cycle has more than 448 extents**: after a
history without an error of the medium, recovery from a copy of the image succeeds exactly if the
sixty-four allocation records that can be told apart are enough for every cycle.  The greatest range of
a file set is recorded in eighteen bits, and what is configured has to fit there. -/
theorem accepts_after_iff {config : Configuration} (hrange : config.defaultMaxRange < 2 ^ 18)
    {device : Device} {d : Directory} (hformat : format config device = .ok d)
    {history : List (Call × Request)} (hquiet : d.Quiet history) (htold : d.Told history) :
    ∃ store, (d.after history).store = some store ∧
      ((∃ e, (recover config store.device.copy).1 = .ok e) ↔
        ∀ set ∈ (d.after history).catalog.sets, ∀ c ∈ set.cycles,
          c.item.table.extents.length ≤ 448) := by
  have hmirrored := mirrored_after hrange hformat hquiet htold
  obtain ⟨store, hstore, hmirrors⟩ := hmirrored.mirrors
  refine ⟨store, hstore, ?_⟩
  constructor
  · rintro ⟨e, he⟩
    exact ((hmirrored.recover_iff hmirrors).1 ⟨e, he, rfl⟩).1
  · intro hnumbered
    obtain ⟨e, hrestart, -⟩ := restart_left hmirrored.partitioned hmirrored.capacity
    obtain ⟨e', he', -⟩ := (hmirrored.recover_iff hmirrors).2 ⟨hnumbered, hrestart⟩
    exact ⟨e', he'⟩

/-- The call and the request by which a disk file of three tracks is created. -/
def diskCall : Call := ⟨⟨1, "RUN1", "USER"⟩, 5, none⟩

def diskRequest : DiskRequest := ⟨"Q", "D", .absolute 1, .track, 3, 10⟩

/-- A disk file of three tracks. -/
def oneDisk : List (Call × Request) := [(diskCall, .createDisk diskRequest)]

/-- There is room for the records of the file on a medium of four sectors. -/
theorem handle_diskRequest :
    ∃ d, format {} { medium := .ofSectorCount 4 } = .ok d ∧
      (d.handle diskCall (.createDisk diskRequest)).1 = .ok (.file ⟨1⟩) := by
  obtain ⟨d, hformat, hafter⟩ :=
    outlined_after {} { medium := .ofSectorCount 4 } rfl rfl fun _ _ _ => rfl
  exact ⟨d, hformat,
    (hafter []).reply (alike_format hformat) (.createDisk diskRequest) nofun rfl rfl
      (by decide +kernel)⟩

theorem quiet_oneDisk :
    ∃ d, format {} { medium := .ofSectorCount 4 } = .ok d ∧ d.Quiet oneDisk ∧ d.Told oneDisk := by
  obtain ⟨d, hformat, hreply⟩ := handle_diskRequest
  exact ⟨d, hformat, quiet_cons_of_ok hreply trivial trivial⟩

theorem accepts_after_oneDisk :
    ∃ d, format {} { medium := .ofSectorCount 4 } = .ok d ∧
      ∃ store, (d.after oneDisk).store = some store ∧
        ((∃ e, (recover {} store.device.copy).1 = .ok e) ↔
          ∀ set ∈ (d.after oneDisk).catalog.sets, ∀ c ∈ set.cycles,
            c.item.table.extents.length ≤ 448) := by
  obtain ⟨d, hformat, hquiet, htold⟩ := quiet_oneDisk
  exact ⟨d, hformat, accepts_after_iff (by decide) hformat hquiet htold⟩

end Directory

end FileDirectory
