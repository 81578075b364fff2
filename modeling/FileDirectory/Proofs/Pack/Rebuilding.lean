/-
**Rebuilding allocation tables.**

Recovery builds a table from the extents that are recorded, in whatever order and overlapping as they
may.  Extents that start at different tracks of the file all get into the table, with every track where
it lay, and those of a table do.  So a table that is built again from its own extents keeps its tracks,
though its extents may have been merged where they could be.

Main definitions:

* `FileDirectory.ExtentTable.rebuilt` — a table built again from its own extents.

Main results:

* `FileDirectory.ExtentTable.Ascending.pairs_foldl_insert` — extents that start at different tracks
  keep their tracks;
* `FileDirectory.ExtentTable.Ascending.pairs_rebuilt` — a table that is built again keeps its tracks;
* `FileDirectory.ExtentTable.fileTracks_foldl_insert` — so do extents that do not overlap.
-/

import FileDirectory.Proofs.Pack.ExtentTable

set_option autoImplicit false

namespace FileDirectory.ExtentTable

/-- **Extents that start at different tracks** are added to a table with every track where it lay. -/
theorem Ascending.pairs_foldl_insert {t : ExtentTable} (h : Ascending t) {es : List Extent}
    (hpos : ∀ e ∈ es, 0 < e.count) (hstarts : (es.map Extent.fileTrack).Nodup)
    (hclear : ∀ e ∈ es, e.fileTrack ∉ t.starts) :
    (es.foldl ExtentTable.insert t).pairs.Perm (es.flatMap Extent.pairs ++ t.pairs) := by
  induction es generalizing t with
  | nil => exact List.Perm.refl _
  | cons e es ih =>
      obtain ⟨hout, hrest⟩ := List.nodup_cons.1 hstarts
      have hadmits : Admits t e := ⟨h, hpos e List.mem_cons_self, hclear e List.mem_cons_self⟩
      have hafter := ih (h.insert e) (fun d hd => hpos d (List.mem_cons_of_mem _ hd)) hrest (by
        intro d hd hin
        rcases List.mem_cons.1 (starts_insert_subset t e _ hin) with heq | hold
        · exact hout (heq ▸ List.mem_map_of_mem hd)
        · exact hclear d (List.mem_cons_of_mem _ hd) hold)
      rw [List.foldl_cons, List.flatMap_cons, List.append_assoc]
      exact hafter.trans
        ((hadmits.pairs_insert.append_left _).trans (List.perm_append_comm_assoc _ _ _))

/-- A table built again from its own extents. -/
def rebuilt (t : ExtentTable) : ExtentTable := t.extents.foldl ExtentTable.insert {}

/-- **A table that is built again keeps every track where it lay.** -/
theorem Ascending.pairs_rebuilt {t : ExtentTable} (h : Ascending t) : t.rebuilt.pairs.Perm t.pairs := by
  have hstarts : (t.extents.map Extent.fileTrack).Nodup :=
    List.pairwise_map.2 (h.ordered.imp Nat.ne_of_lt)
  have hpairs := ascending_empty.pairs_foldl_insert h.nonempty hstarts fun e _ hin => by cases hin
  exact hpairs.trans (List.Perm.of_eq (List.append_nil _))

theorem Ascending.packTracks_rebuilt {t : ExtentTable} (h : Ascending t) :
    t.rebuilt.packTracks.Perm t.packTracks := by
  rw [← map_snd_pairs, ← map_snd_pairs]
  exact h.pairs_rebuilt.map Prod.snd

/-- Extents without tracks may be left out. -/
theorem foldl_insert_filter (t : ExtentTable) (es : List Extent) :
    (es.filter fun e => e.count ≠ 0).foldl ExtentTable.insert t = es.foldl ExtentTable.insert t := by
  induction es generalizing t with
  | nil => rfl
  | cons e es ih =>
      by_cases hzero : e.count = 0
      · rw [List.filter_cons_of_neg (by simp [hzero]), List.foldl_cons, ih, insert, if_pos hzero]
      · rw [List.filter_cons_of_pos (by simp [hzero]), List.foldl_cons, List.foldl_cons, ih]

theorem tracksIn_filter (es : List Extent) :
    tracksIn ((es.filter fun e => e.count ≠ 0).map Extent.fileRegion) =
      tracksIn (es.map Extent.fileRegion) := by
  induction es with
  | nil => rfl
  | cons e es ih =>
      by_cases hzero : e.count = 0
      · have hnone : e.fileRegion.tracks = [] := by simp [Region.tracks, Extent.fileRegion, hzero]
        rw [List.filter_cons_of_neg (by simp [hzero]), ih, List.map_cons, tracksIn_cons, hnone]
        rfl
      · rw [List.filter_cons_of_pos (by simp [hzero]), List.map_cons, List.map_cons, tracksIn_cons,
          tracksIn_cons, ih]

/-- Extents that do not overlap in the file start at different tracks. -/
theorem nodup_starts {es : List Extent} (hpos : ∀ e ∈ es, 0 < e.count)
    (h : (tracksIn (es.map Extent.fileRegion)).Nodup) : (es.map Extent.fileTrack).Nodup := by
  rw [tracksIn, List.flatMap_map] at h
  obtain ⟨-, hdisjoint⟩ := List.nodup_flatMap.1 h
  refine List.pairwise_map.2 ((List.Pairwise.and_mem.1 hdisjoint).imp ?_)
  rintro d e ⟨hd, he, hapart⟩ heq
  have hself : ∀ c ∈ es, c.fileTrack ∈ c.fileRegion.tracks := fun c hc =>
    Region.mem_tracks.2 ⟨Nat.le_refl _, Nat.lt_add_of_pos_right (hpos c hc)⟩
  exact hapart (hself d hd) (heq ▸ hself e he)

/-- **Extents that do not overlap in the file** all get into the table that is built from them. -/
theorem fileTracks_foldl_insert {es : List Extent}
    (h : (tracksIn (es.map Extent.fileRegion)).Nodup) :
    (es.foldl ExtentTable.insert {}).fileTracks.Perm (tracksIn (es.map Extent.fileRegion)) := by
  rw [← foldl_insert_filter, ← tracksIn_filter, ← map_fst_pairs]
  rw [← tracksIn_filter] at h
  have hpos : ∀ e ∈ es.filter fun e => e.count ≠ 0, 0 < e.count := by
    intro e he
    exact Nat.pos_of_ne_zero (of_decide_eq_true (List.mem_filter.1 he).2)
  have hpairs := ascending_empty.pairs_foldl_insert hpos (nodup_starts hpos h)
    fun e _ hin => by cases hin
  refine (hpairs.map Prod.fst).trans (List.Perm.of_eq ?_)
  rw [List.map_append, List.map_flatMap, tracksIn, List.flatMap_map]
  exact (List.append_nil _).trans (List.flatMap_congr fun e _ => e.map_fst_pairs)

end FileDirectory.ExtentTable
