/-
**An allocation table is a map.**

A table to which only tracks were added that lay nowhere maps file tracks to pack tracks, and is the
only such table with its map: its extents are the longest runs of tracks that lie one behind another
both in the file and on the pack.  Adding an extent extends the map by its tracks, and what the table
says of gaps, of the number of its tracks and of the regions that it holds is said of the map.

Main definitions:

* `FileDirectory.Region.Maximal` — a longest run of the tracks with a property;
* `FileDirectory.ExtentTable.Vacant`, `FileDirectory.ExtentTable.Built` — tracks that lie nowhere, and
  the tables to which only such tracks were added;
* `FileDirectory.ExtentTable.Refines` — what a table does to its map and says of it.

Main results:

* `FileDirectory.Separated.mem_iff_maximal` — regions that stand apart are longest runs of their tracks;
* `FileDirectory.ExtentTable.Canonical.eq_of_packTrack?` — a canonical table is told by its map;
* `FileDirectory.ExtentTable.Canonical.packTrack?_insert` — adding an extent extends the map;
* `FileDirectory.ExtentTable.Canonical.mem_gaps_iff` — the gaps of a region;
* `FileDirectory.ExtentTable.refines_of_built` — a table that was built is a map.
-/

import FileDirectory.Proofs.Pack.Mapping
import Mathlib.Data.List.Sort
import Mathlib.Data.Set.Card

set_option autoImplicit false

namespace FileDirectory

/-! ### The longest runs of tracks -/

/-- A longest run of the tracks with a property: all its tracks have it, and no run of such tracks goes
beyond it. -/
structure Region.Maximal (p : Nat → Prop) (r : Region) : Prop where
  nonempty : 0 < r.count
  inside : ∀ track ∈ r, p track
  widest : ∀ g : Region, (∀ track ∈ g, p track) → (∀ track ∈ r, track ∈ g) → ∀ track ∈ g, track ∈ r

theorem Region.first_mem {r : Region} (h : 0 < r.count) : r.first ∈ r :=
  ⟨Nat.le_refl _, Nat.lt_add_of_pos_right h⟩

/-- A region inside another one that has no other tracks is the other one. -/
theorem Region.eq_of_inside {f r : Region} (hr : 0 < r.count) (hfirst : f.first ≤ r.first)
    (hlimit : r.limit ≤ f.limit) (h : ∀ track ∈ f, track ∈ r) : f = r := by
  have hwidth : f.limit = f.first + f.count := rfl
  have hwidth' : r.limit = r.first + r.count := rfl
  -- the first and the last track of the outer region are in the inner one
  have hbegins := h f.first ⟨Nat.le_refl _, by omega⟩
  have hends := h (f.limit - 1) ⟨by omega, by omega⟩
  rw [mem_iff] at hbegins hends
  exact eq_of_limit_eq (by omega) (by omega)

/-- Regions that stand apart have no track in common. -/
theorem Separated.eq_of_mem {regions : List Region} (h : Separated regions) {f g : Region}
    (hf : f ∈ regions) (hg : g ∈ regions) {track : Nat} (htrack : track ∈ f) (htrack' : track ∈ g) :
    f = g := by
  by_contra hne
  rw [Region.mem_iff] at htrack htrack'
  rcases pairwise_or h.apart hf hg hne with hlt | hlt
  · omega
  · omega

/-- **Regions that stand apart are the longest runs of their tracks.** -/
theorem Separated.mem_iff_maximal {regions : List Region} (h : Separated regions) {r : Region} :
    r ∈ regions ↔ r.Maximal fun track => track ∈ tracksIn regions := by
  constructor
  · intro hr
    have hown := Region.first_mem (h.nonempty r hr)
    refine ⟨h.nonempty r hr, fun track htrack => mem_tracksIn.2 ⟨r, hr, htrack⟩, ?_⟩
    intro g hg hsub track htrack
    obtain ⟨f, hf, hfirst, hlimit⟩ := h.exists_inside (Region.count_pos_of_mem htrack) hg
    have hinside : ∀ track ∈ g, track ∈ f := fun _ => Region.mem_of_inside hfirst hlimit
    obtain rfl := h.eq_of_mem hr hf hown (hinside _ (hsub _ hown))
    exact hinside track htrack
  · intro hmax
    obtain ⟨f, hf, hfirst, hlimit⟩ := h.exists_inside hmax.nonempty hmax.inside
    have hback := hmax.widest f (fun track htrack => mem_tracksIn.2 ⟨f, hf, htrack⟩)
      fun _ => Region.mem_of_inside hfirst hlimit
    rwa [← Region.eq_of_inside hmax.nonempty hfirst hlimit hback]

namespace ExtentTable

variable {t u : ExtentTable}

/-! ### Tables and their maps -/

namespace Canonical

/-- **A run of pairs that a canonical table holds lies inside one extent of it.** -/
theorem exists_inside (h : Canonical t) {e : Extent} (he : 0 < e.count)
    (hsub : ∀ pair ∈ e.pairs, pair ∈ t.pairs) :
    ∃ d ∈ t.extents, d.fileTrack ≤ e.fileTrack ∧ e.fileLimit ≤ d.fileLimit ∧
      d.packTrack + (e.fileTrack - d.fileTrack) = e.packTrack := by
  have hlimit : e.fileLimit = e.fileTrack + e.count := rfl
  have hholds : ∀ i < e.count, ∃ d ∈ t.extents, d.fileTrack ≤ e.fileTrack + i ∧
      e.fileTrack + i < d.fileLimit ∧
      e.packTrack + i = d.packTrack + (e.fileTrack + i - d.fileTrack) := by
    intro i hi
    have hpair := hsub (e.fileTrack + i, e.packTrack + i) (Extent.mem_pairs.2 (by omega))
    obtain ⟨d, hd, hin⟩ := List.mem_flatMap.1 hpair
    exact ⟨d, hd, Extent.mem_pairs.1 hin⟩
  obtain ⟨d, hd, hfirst, hlast, hpack⟩ := hholds 0 he
  have hdlimit : d.fileLimit = d.fileTrack + d.count := rfl
  refine ⟨d, hd, hfirst, Nat.not_lt.1 fun hlt => ?_, hpack.symm⟩
  -- the track behind the extent would lie in another one, which would continue it
  obtain ⟨c, hc, hcfirst, hclast, hcpack⟩ := hholds (d.fileLimit - e.fileTrack) (by omega)
  have hclimit : c.fileLimit = c.fileTrack + c.count := rfl
  rcases h.cases_of_mem hd hc with rfl | ⟨hle, hnot⟩ | ⟨hle, -⟩
  · omega
  · refine hnot ⟨by omega, ?_⟩
    unfold Extent.packLimit
    omega
  · omega

/-- An extent of a canonical table is in every canonical table that holds the same pairs. -/
theorem mem_of_pairs (ht : Canonical t) (hu : Canonical u)
    (hpairs : ∀ pair, pair ∈ t.pairs ↔ pair ∈ u.pairs) {e : Extent} (he : e ∈ t.extents) :
    e ∈ u.extents := by
  have hpos := ht.nonempty e he
  have hown : ∀ {t : ExtentTable} {e : Extent}, e ∈ t.extents → ∀ pair ∈ e.pairs, pair ∈ t.pairs :=
    fun he pair hpair => List.mem_flatMap.2 ⟨_, he, hpair⟩
  -- it lies inside an extent of the other table, which lies inside one of the first again
  obtain ⟨d, hd, hfirst, hlimit, hpack⟩ :=
    hu.exists_inside hpos fun pair hpair => (hpairs pair).1 (hown he pair hpair)
  obtain ⟨c, hc, hcfirst, hclimit, -⟩ :=
    ht.exists_inside (hu.nonempty d hd) fun pair hpair => (hpairs pair).2 (hown hd pair hpair)
  have hewidth : e.fileLimit = e.fileTrack + e.count := rfl
  have hdwidth : d.fileLimit = d.fileTrack + d.count := rfl
  rcases ht.cases_of_mem he hc with rfl | ⟨hle, -⟩ | ⟨hle, -⟩
  · obtain ⟨fileTrack, packTrack, count⟩ := e
    obtain ⟨fileTrack', packTrack', count'⟩ := d
    dsimp only at *
    obtain rfl : fileTrack = fileTrack' := by omega
    obtain rfl : packTrack = packTrack' := by omega
    obtain rfl : count = count' := by omega
    exact hd
  · omega
  · omega

/-- **A canonical table is told by its map.** -/
theorem eq_of_packTrack? (ht : Canonical t) (hu : Canonical u)
    (h : ∀ track, t.packTrack? track = u.packTrack? track) : t = u := by
  have hpairs : ∀ pair, pair ∈ t.pairs ↔ pair ∈ u.pairs := by
    rintro ⟨track, p⟩
    rw [← ht.packTrack?_eq_some_iff, ← hu.packTrack?_eq_some_iff, h]
  have hmem : ∀ e, e ∈ t.extents ↔ e ∈ u.extents := fun e =>
    ⟨ht.mem_of_pairs hu hpairs, hu.mem_of_pairs ht fun pair => (hpairs pair).symm⟩
  have hperm := (List.perm_ext_iff_of_nodup ht.ascending.nodup hu.ascending.nodup).2 hmem
  obtain ⟨extents⟩ := t
  obtain ⟨extents'⟩ := u
  refine congrArg ExtentTable.mk (List.Perm.eq_of_pairwise (fun c d _ _ hcd hdc => ?_) ht.ascending.ordered
    hu.ascending.ordered hperm)
  exact absurd hcd (Nat.lt_asymm hdc)

end Canonical

/-! ### Adding tracks -/

/-- The file tracks of an extent lie nowhere. -/
def Vacant (t : ExtentTable) (e : Extent) : Prop :=
  ∀ track, e.fileTrack ≤ track → track < e.fileLimit → t.packTrack? track = none

instance (t : ExtentTable) (e : Extent) : Decidable (t.Vacant e) := by
  unfold Vacant; infer_instance

/-- A table to which only tracks were added that lay nowhere at the time. -/
inductive Built : ExtentTable → Prop where
  | empty : Built {}
  | insert {t : ExtentTable} {e : Extent} (h : Built t) (he : t.Vacant e) : Built (t.insert e)

theorem insert_of_count_eq_zero {e : Extent} (h : e.count = 0) : t.insert e = t := by
  rw [insert, if_pos h]

theorem Vacant.apart {e : Extent} (h : t.Vacant e) (ht : Canonical t) (he : 0 < e.count) :
    Apart t e :=
  apart_of_notMem ht he fun track hle hlt => packTrack?_eq_none_iff.1 (h track hle hlt)

/-- Adding tracks that lie nowhere keeps the form of a table. -/
theorem Canonical.insert_vacant (h : Canonical t) {e : Extent} (he : t.Vacant e) :
    Canonical (t.insert e) := by
  rcases Nat.eq_zero_or_pos e.count with hzero | hpos
  · rwa [insert_of_count_eq_zero hzero]
  · exact h.insert hpos (he.apart h hpos)

/-- So does adding such tracks again and again. -/
theorem Built.canonical (h : Built t) : Canonical t := by
  induction h with
  | empty => exact canonical_empty
  | insert _ he ih => exact ih.insert_vacant he

/-- **Adding an extent extends the map** by its tracks. -/
theorem Canonical.packTrack?_insert (h : Canonical t) {e : Extent} (he : t.Vacant e) (track : Nat) :
    (t.insert e).packTrack? track =
      if e.fileTrack ≤ track ∧ track < e.fileLimit then some (e.packTrack + (track - e.fileTrack))
      else t.packTrack? track := by
  have hlimit : e.fileLimit = e.fileTrack + e.count := rfl
  rcases Nat.eq_zero_or_pos e.count with hzero | hpos
  · rw [insert_of_count_eq_zero hzero, if_neg (by omega)]
  · have hpairs := ((he.apart h hpos).admits h hpos).pairs_insert
    ext p
    rw [(h.insert_vacant he).packTrack?_eq_some_iff, hpairs.mem_iff, List.mem_append,
      Extent.mem_pairs, ← h.packTrack?_eq_some_iff]
    by_cases hin : e.fileTrack ≤ track ∧ track < e.fileLimit
    · rw [if_pos hin, he track hin.1 hin.2, Option.some.injEq]
      simp [hin, eq_comm]
    · rw [if_neg hin]
      refine ⟨?_, Or.inr⟩
      rintro (⟨hle, hlt, -⟩ | hold)
      · exact absurd ⟨hle, hlt⟩ hin
      · exact hold

/-! ### Gaps -/

/-- Between two gaps lies at least the first track of an extent. -/
theorem separated_gapsFrom {es : List Extent} (hpos : ∀ e ∈ es, 0 < e.count) (cursor limit : Nat) :
    Separated (gapsFrom cursor limit es) ∧ ∀ g ∈ gapsFrom cursor limit es, cursor ≤ g.first := by
  induction es generalizing cursor with
  | nil =>
      refine ⟨separated_between cursor limit, fun g hg => ?_⟩
      obtain ⟨-, rfl⟩ := mem_between.1 hg
      exact Nat.le_refl _
  | cons e es ih =>
      obtain ⟨he, hrest⟩ := List.forall_mem_cons.1 hpos
      obtain ⟨hseparated, hfirst⟩ := ih hrest (max cursor e.fileLimit)
      have helimit : e.fileLimit = e.fileTrack + e.count := rfl
      have hparts : gapsFrom cursor limit (e :: es) =
          between cursor e.fileTrack ++ gapsFrom (max cursor e.fileLimit) limit es := rfl
      rw [hparts]
      refine ⟨(separated_between _ _).append hseparated fun f hf g hg => ?_, fun g hg => ?_⟩
      · obtain ⟨hlt, rfl⟩ := mem_between.1 hf
        have := hfirst g hg
        unfold Region.limit
        dsimp only
        omega
      · rcases List.mem_append.1 hg with hg | hg
        · obtain ⟨-, rfl⟩ := mem_between.1 hg
          exact Nat.le_refl _
        · exact Nat.le_trans (Nat.le_max_left _ _) (hfirst g hg)

namespace Canonical

theorem separated_gaps (h : Canonical t) (r : Region) : Separated (t.gaps r) :=
  (separated_gapsFrom (fun e he => h.nonempty e (List.mem_filter.1 he).1) _ _).1

theorem mem_tracksIn_gaps (h : Canonical t) {r : Region} {track : Nat} :
    track ∈ tracksIn (t.gaps r) ↔ track ∈ r ∧ t.packTrack? track = none := by
  rw [(h.gaps_perm_unmapped r).mem_iff, mem_unmapped, packTrack?_eq_none_iff]

/-- **The gaps of a region** are the longest runs of its tracks that lie nowhere. -/
theorem mem_gaps_iff (h : Canonical t) {r g : Region} :
    g ∈ t.gaps r ↔ g.Maximal fun track => track ∈ r ∧ t.packTrack? track = none := by
  simp only [(h.separated_gaps r).mem_iff_maximal, h.mem_tracksIn_gaps]

theorem covers_iff (h : Canonical t) {r : Region} :
    t.covers r = true ↔ ∀ track ∈ r, t.packTrack? track ≠ none := by
  rw [covers, List.isEmpty_iff]
  constructor
  · intro hnone track htrack hout
    have hgap := h.mem_tracksIn_gaps.2 ⟨htrack, hout⟩
    rw [hnone] at hgap
    cases hgap
  · intro hall
    refine List.eq_nil_iff_forall_not_mem.2 fun g hg => ?_
    have hmax := h.mem_gaps_iff.1 hg
    obtain ⟨hin, hout⟩ := hmax.inside _ (Region.first_mem hmax.nonempty)
    exact hall _ hin hout

/-! ### Numbers of tracks -/

/-- No file track is in two extents. -/
theorem nodup_fileTracks (h : Canonical t) : t.fileTracks.Nodup := by
  refine List.nodup_flatMap.2 ⟨fun r _ => r.nodup_tracks, List.pairwise_map.2 (h.ordered.imp ?_)⟩
  rintro d e ⟨hle, -⟩ track hd he
  rw [Region.mem_tracks, Region.mem_iff] at hd he
  exact Nat.lt_irrefl _ (Nat.lt_of_lt_of_le hd.2 (Nat.le_trans hle he.1))

/-- **The number of tracks** of a table is that of the tracks that its map maps. -/
theorem encard_mapped (h : Canonical t) :
    {track | t.packTrack? track ≠ none}.encard = t.tracks := by
  have hset : {track | t.packTrack? track ≠ none} = (t.fileTracks.toFinset : Set Nat) := by
    ext track
    rw [Set.mem_ofPred_eq, Ne, packTrack?_eq_none_iff, not_not, Finset.mem_coe, List.mem_toFinset]
  have hlength : t.fileTracks.length = t.tracks := by
    rw [← length_packTracks, ← map_fst_pairs, ← map_snd_pairs, List.length_map, List.length_map]
  rw [hset, Set.encard_coe_eq_coe_finsetCard, List.toFinset_card_of_nodup h.nodup_fileTracks, hlength]

/-- **A pack track is held as often** as file tracks are mapped to it. -/
theorem count_packTracks (h : Canonical t) (p : Nat) :
    {track | t.packTrack? track = some p}.encard = t.packTracks.count p := by
  have hnodup : ((t.pairs.filter fun pair => pair.2 == p).map Prod.fst).Nodup := by
    refine h.nodup_fileTracks.sublist ?_
    rw [← map_fst_pairs]
    exact List.filter_sublist.map _
  have hset : {track | t.packTrack? track = some p} =
      (((t.pairs.filter fun pair => pair.2 == p).map Prod.fst).toFinset : Set Nat) := by
    ext track
    rw [Set.mem_ofPred_eq, h.packTrack?_eq_some_iff, Finset.mem_coe, List.mem_toFinset]
    simp
  rw [hset, Set.encard_coe_eq_coe_finsetCard, List.toFinset_card_of_nodup hnodup, List.length_map,
    ← map_snd_pairs, List.count_eq_countP, List.countP_map, List.countP_eq_length_filter]
  rfl

end Canonical

/-! ### A table as a map -/

/-- What a table does to its map and says of it.  Its extents are not empty, do not overlap, and none
continues another; adding tracks that lie nowhere extends the map by them; the gaps of a region are the
longest runs of its tracks that the map does not map, ascending; and the regions that are taken from it
hold every pack track as often as the map has it. -/
structure Refines (t : ExtentTable) : Prop where
  nonempty : ∀ e ∈ t.extents, 0 < e.count
  ordered : t.extents.Pairwise fun d e => d.fileLimit ≤ e.fileTrack ∧ ¬d.Continues e
  insert : ∀ e, t.Vacant e → ∀ track, (t.insert e).packTrack? track =
    if e.fileTrack ≤ track ∧ track < e.fileLimit then some (e.packTrack + (track - e.fileTrack))
    else t.packTrack? track
  gaps : ∀ r g, g ∈ t.gaps r ↔ g.Maximal fun track => track ∈ r ∧ t.packTrack? track = none
  ascending : ∀ r, (t.gaps r).Pairwise fun f g => f.limit ≤ g.first
  covers : ∀ r, t.covers r = true ↔ ∀ track ∈ r, t.packTrack? track ≠ none
  tracks : {track | t.packTrack? track ≠ none}.encard = t.tracks
  empties : t.takeAll.2 = {}
  regions : ∀ p, {track | t.packTrack? track = some p}.encard = (tracksIn t.takeAll.1).count p

theorem Canonical.refines (h : Canonical t) : Refines t where
  nonempty := h.nonempty
  ordered := h.ordered
  insert := fun _ he => h.packTrack?_insert he
  gaps := fun _ _ => h.mem_gaps_iff
  ascending := fun r => (h.separated_gaps r).apart.imp Nat.le_of_lt
  covers := fun _ => h.covers_iff
  tracks := h.encard_mapped
  empties := rfl
  regions := h.count_packTracks

/-- **A table to which only tracks were added that lay nowhere is a map**, and depends on nothing but
the map: not on the order in which the tracks were added nor on how they were split. -/
theorem refines_of_built (h : t.Built) :
    t.Refines ∧ ∀ u : ExtentTable, u.Built →
      (∀ track, u.packTrack? track = t.packTrack? track) → u = t :=
  ⟨h.canonical.refines, fun _ hu hmap => hu.canonical.eq_of_packTrack? h.canonical hmap⟩

/-- The tracks 0 to 9 are added as 0 to 4 and 5 to 9, and the other way round. -/
theorem refines_of_built_turned :
    let t := (({} : ExtentTable).insert ⟨0, 100, 5⟩).insert ⟨5, 105, 5⟩
    let u := (({} : ExtentTable).insert ⟨5, 105, 5⟩).insert ⟨0, 100, 5⟩
    t.Built ∧ t.Refines ∧ t.extents = [⟨0, 100, 10⟩] ∧ u.Built ∧ u = t := by
  intro t u
  have ht : t.Built := .insert (.insert .empty (by decide)) (by decide)
  have hu : u.Built := .insert (.insert .empty (by decide)) (by decide)
  obtain ⟨hrefines, hsame⟩ := refines_of_built ht
  have hextents : u.extents = t.extents := by decide
  refine ⟨ht, hrefines, by decide, hu, hsame u hu fun track => ?_⟩
  rw [packTrack?, packTrack?, hextents]

end ExtentTable

end FileDirectory
