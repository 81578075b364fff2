/-
**Where file tracks lie.**

A canonical table says of each file track that it holds on which track of the pack it lies.  Filling
the gaps of a region maps the tracks of the region that were not mapped before, takes as many tracks
from the pack, and moves no track that was.

Main definitions:

* `FileDirectory.ExtentTable.unmapped` — the tracks of a region that lie nowhere;
* `FileDirectory.ExtentTable.Backs` — a table that maps a region and otherwise what another one does.

Main results:

* `FileDirectory.ExtentTable.packTrack?_eq_none_iff` — the tracks that lie nowhere;
* `FileDirectory.ExtentTable.Canonical.packTrack?_eq_some_iff` — where the others lie;
* `FileDirectory.ExtentTable.Canonical.gaps_perm_unmapped` — they are what the gaps of a region hold;
* `FileDirectory.Catalog.fill_backs` — filling the gaps of a region.
-/

import FileDirectory.Proofs.Pack.ExtentTable

set_option autoImplicit false

namespace FileDirectory

/-- A file track of an extent lies as far into the pack tracks as it is into the file tracks. -/
theorem Extent.mem_pairs {e : Extent} {track p : Nat} : (track, p) ∈ e.pairs ↔
    e.fileTrack ≤ track ∧ track < e.fileLimit ∧ p = e.packTrack + (track - e.fileTrack) := by
  have hlimit : e.fileLimit = e.fileTrack + e.count := rfl
  have hpairs : e.pairs =
      (List.range e.count).map fun i => (e.fileTrack + i, e.packTrack + i) := by
    rw [pairs, fileRegion, packRegion, Region.tracks, Region.tracks, List.range'_eq_map_range,
      List.range'_eq_map_range, List.zip_map']
  rw [hpairs, List.mem_map]
  constructor
  · rintro ⟨i, hi, heq⟩
    rw [List.mem_range] at hi
    rw [Prod.mk.injEq] at heq
    omega
  · rintro ⟨hle, hlt, rfl⟩
    refine ⟨track - e.fileTrack, List.mem_range.2 (by omega), ?_⟩
    rw [Prod.mk.injEq]
    omega

namespace ExtentTable

variable {t after : ExtentTable} {r : Region} {track p : Nat}

/-! ### Looking up -/

/-- A track lies somewhere exactly if the table holds it. -/
theorem packTrack?_eq_none_iff : t.packTrack? track = none ↔ track ∉ t.fileTracks := by
  rw [packTrack?, Option.map_eq_none_iff, List.find?_eq_none, mem_fileTracks]
  simp

/-- **Where a track lies** is said by the one extent that holds it. -/
theorem Canonical.packTrack?_eq_some_iff (h : Canonical t) :
    t.packTrack? track = some p ↔ (track, p) ∈ t.pairs := by
  rw [packTrack?, Option.map_eq_some_iff, pairs, List.mem_flatMap]
  constructor
  · rintro ⟨e, he, rfl⟩
    have hin := List.find?_some he
    rw [Bool.and_eq_true, decide_eq_true_eq, decide_eq_true_eq] at hin
    exact ⟨e, List.mem_of_find?_eq_some he, Extent.mem_pairs.2 ⟨hin.1, hin.2, rfl⟩⟩
  · rintro ⟨e, he, hpair⟩
    obtain ⟨hle, hlt, rfl⟩ := Extent.mem_pairs.1 hpair
    cases hfind : t.extents.find? fun d => d.fileTrack ≤ track && track < d.fileLimit with
    | none => exact absurd (List.find?_eq_none.1 hfind e he) (by simp [hle, hlt])
    | some d =>
        have hin := List.find?_some hfind
        rw [Bool.and_eq_true, decide_eq_true_eq, decide_eq_true_eq] at hin
        -- no two extents hold the same track
        rcases h.cases_of_mem (List.mem_of_find?_eq_some hfind) he with rfl | ⟨hde, -⟩ | ⟨hed, -⟩
        · exact ⟨d, rfl, rfl⟩
        · omega
        · omega

/-! ### Tracks that lie nowhere -/

/-- The tracks of a region that lie nowhere on the pack. -/
def unmapped (t : ExtentTable) (r : Region) : List Nat :=
  r.tracks.filter fun track => (t.packTrack? track).isNone

theorem mem_unmapped : track ∈ t.unmapped r ↔ track ∈ r ∧ track ∉ t.fileTracks := by
  rw [unmapped, List.mem_filter, Region.mem_tracks, Option.isNone_iff_eq_none, packTrack?_eq_none_iff]

theorem nodup_unmapped (t : ExtentTable) (r : Region) : (t.unmapped r).Nodup :=
  r.nodup_tracks.filter _

/-- **The gaps of a region** are its tracks that lie nowhere. -/
theorem Canonical.gaps_perm_unmapped (h : Canonical t) (r : Region) :
    (tracksIn (t.gaps r)).Perm (t.unmapped r) := by
  obtain ⟨hnodup, hinside⟩ := h.ascending.gaps r
  refine (List.perm_ext_iff_of_nodup hnodup (t.nodup_unmapped r)).2 fun track => ?_
  rw [mem_unmapped]
  refine ⟨fun hgap => ⟨(hinside track hgap).1, h.gaps r track hgap⟩, ?_⟩
  rintro ⟨hin, hout⟩
  exact (t.mem_gaps_or_mem_fileTracks hin).resolve_right hout

/-! ### Backing a region -/

/-- A table maps every track of a region, and otherwise maps what another table does: no track that
was mapped has moved, and no other was mapped. -/
structure Backs (after t : ExtentTable) (r : Region) : Prop where
  mapped : ∀ track ∈ r, (after.packTrack? track).isSome = true
  kept : ∀ track p, t.packTrack? track = some p → after.packTrack? track = some p
  outside : ∀ track, track ∉ r → after.packTrack? track = t.packTrack? track

/-- Of a region that is backed no track lies nowhere. -/
theorem Backs.unmapped_eq_nil (h : Backs after t r) : after.unmapped r = [] := by
  refine List.filter_eq_nil_iff.2 fun track htrack hnone => ?_
  have hsome := h.mapped track (Region.mem_tracks.1 htrack)
  rw [Option.isNone_iff_eq_none.1 hnone] at hsome
  cases hsome

end ExtentTable

namespace Catalog

open ExtentTable

/-- **Filling the gaps of a region** backs it, at the cost of as many free tracks as lay nowhere. -/
theorem fill_backs {space after : FreeSpace} {table table' : ExtentTable} {r : Region}
    (hspace : space.Sound) (h : table.Canonical)
    (hfill : fill space table (table.gaps r) = (none, after, table')) :
    Backs table' table r ∧ after.free + (table.unmapped r).length = space.free := by
  obtain ⟨hnodup, hinside⟩ := h.ascending.gaps r
  have hafter := h.fill hspace hnodup (h.gaps r) hfill
  obtain ⟨hsound, -, -, hkept, hfile, hpack⟩ := fill_spec hspace h.ascending hnodup
    (fun track htrack => (hinside track htrack).2) hfill
  have hgaps := h.gaps_perm_unmapped r
  have hmem : ∀ track, track ∈ table'.fileTracks ↔ track ∈ r ∨ track ∈ table.fileTracks := by
    intro track
    rw [hfile.mem_iff, List.mem_append]
    constructor
    · exact Or.imp_left fun hgap => (hinside track hgap).1
    · rintro (hin | hin)
      · exact table.mem_gaps_or_mem_fileTracks hin
      · exact Or.inr hin
  have hstays : ∀ track p, table.packTrack? track = some p → table'.packTrack? track = some p :=
    fun track p hp => hafter.packTrack?_eq_some_iff.2 (hkept _ (h.packTrack?_eq_some_iff.1 hp))
  refine ⟨⟨fun track hin => ?_, hstays, fun track hout => ?_⟩, ?_⟩
  · rw [Option.isSome_iff_ne_none, Ne, packTrack?_eq_none_iff]
    exact not_not_intro ((hmem track).2 (Or.inl hin))
  · cases hp : table.packTrack? track with
    | some p => exact hstays track p hp
    | none =>
        rw [packTrack?_eq_none_iff] at hp ⊢
        exact fun hin => ((hmem track).1 hin).elim hout hp
  · have hfiles := hfile.length_eq
    have hpacks := hpack.length_eq
    -- as many tracks of the pack as of the file
    have hwidth : ∀ t : ExtentTable, t.fileTracks.length = t.packTracks.length := by
      intro t
      rw [← map_fst_pairs, ← map_snd_pairs, List.length_map, List.length_map]
    rw [List.length_append] at hfiles
    rw [List.length_append, List.length_append, ← hwidth, ← hwidth, ← hsound.free_eq,
      ← hspace.free_eq] at hpacks
    have hcount := hgaps.length_eq
    omega

end Catalog

end FileDirectory
