/-
**Allocation tables stand in order.**

Whatever the records of a medium say, the extents of an allocation table stand by ascending first
track of the file, no two of them start alike and none is empty; they may still overlap in the file.
An extent that is added where none starts loses no track of the pack and doubles none, and the gaps
of a region are such places.  So filling gaps only moves tracks from the pack to the table.

Main definitions:

* `FileDirectory.ExtentTable.fileTracks`, `FileDirectory.ExtentTable.packTracks`,
  `FileDirectory.ExtentTable.pairs` — the tracks of the file and of the pack that a table holds, and
  which lies on which;
* `FileDirectory.ExtentTable.Ascending` — the order of a table;
* `FileDirectory.ExtentTable.Admits` — an extent may be added to a table.

Main results:

* `FileDirectory.ExtentTable.Ascending.insert` — every table stays in order;
* `FileDirectory.ExtentTable.Admits.insert` — what a table holds to which an extent was added;
* `FileDirectory.ExtentTable.Ascending.gaps` — gaps are told apart, and no extent starts in one;
* `FileDirectory.ExtentTable.mem_gaps_or_mem_fileTracks` — a track of a region is in a gap or in the
  table;
* `FileDirectory.Catalog.fill_spec` — filling gaps moves tracks from the pack to the table;
* `FileDirectory.Catalog.fill_of_length_le` — no gap is refused when enough tracks are free.
-/

import FileDirectory.Catalog.Tracks
import FileDirectory.Proofs.Pack.FreeSpace

set_option autoImplicit false

namespace FileDirectory

namespace Extent

/-- The file tracks of an extent. -/
def fileRegion (e : Extent) : Region := ⟨e.fileTrack, e.count⟩

/-- The file tracks of an extent, each with the pack track that it lies on. -/
def pairs (e : Extent) : List (Nat × Nat) := e.fileRegion.tracks.zip e.packRegion.tracks

theorem length_tracks_eq (e : Extent) : e.fileRegion.tracks.length = e.packRegion.tracks.length := by
  rw [Region.length_tracks, Region.length_tracks]
  rfl

theorem map_fst_pairs (e : Extent) : e.pairs.map Prod.fst = e.fileRegion.tracks :=
  List.map_fst_zip (Nat.le_of_eq e.length_tracks_eq)

theorem map_snd_pairs (e : Extent) : e.pairs.map Prod.snd = e.packRegion.tracks :=
  List.map_snd_zip (Nat.le_of_eq e.length_tracks_eq.symm)

theorem fileTrack_append (d e : Extent) : (d.append e).fileTrack = d.fileTrack := rfl

/-- An extent that is made longer by the one that continues it ends where that does. -/
theorem fileLimit_append {d e : Extent} (h : d.Continues e) :
    (d.append e).fileLimit = e.fileLimit := by
  have hmeets : d.fileTrack + d.count = e.fileTrack := h.1
  show d.fileTrack + (d.count + e.count) = e.fileTrack + e.count
  omega

theorem packLimit_append {d e : Extent} (h : d.Continues e) :
    (d.append e).packLimit = e.packLimit := by
  have hmeets : d.packTrack + d.count = e.packTrack := h.2
  show d.packTrack + (d.count + e.count) = e.packTrack + e.count
  omega

/-- An extent that is made longer is continued by what continues its last part. -/
theorem append_continues_iff {c d e : Extent} (h : d.Continues e) :
    (d.append e).Continues c ↔ e.Continues c := by
  rw [Continues, fileLimit_append h, packLimit_append h, Continues]

/-- An extent that is made longer by the one that continues it has the tracks of both. -/
theorem pairs_append {d e : Extent} (h : d.Continues e) :
    (d.append e).pairs = d.pairs ++ e.pairs := by
  have hfile : (d.append e).fileRegion.tracks = d.fileRegion.tracks ++ e.fileRegion.tracks :=
    Region.tracks_merge (f := d.fileRegion) (r := e.fileRegion) h.1
  have hpack : (d.append e).packRegion.tracks = d.packRegion.tracks ++ e.packRegion.tracks :=
    Region.tracks_merge (f := d.packRegion) (r := e.packRegion) h.2
  rw [pairs, hfile, hpack, List.zip_append d.length_tracks_eq]
  rfl

end Extent

namespace ExtentTable

/-! ### Tracks of extents -/

/-- The file tracks that a table holds. -/
def fileTracks (t : ExtentTable) : List Nat := tracksIn (t.extents.map Extent.fileRegion)

/-- The pack tracks that a table holds. -/
def packTracks (t : ExtentTable) : List Nat := tracksIn t.packRegions

/-- The file tracks at which the extents of a table start. -/
def starts (t : ExtentTable) : List Nat := t.extents.map Extent.fileTrack

theorem mem_fileTracks {t : ExtentTable} {track : Nat} :
    track ∈ t.fileTracks ↔ ∃ e ∈ t.extents, e.fileTrack ≤ track ∧ track < e.fileLimit := by
  rw [fileTracks, mem_tracksIn]
  constructor
  · rintro ⟨r, hr, hin⟩
    obtain ⟨e, he, rfl⟩ := List.mem_map.1 hr
    exact ⟨e, he, hin⟩
  · rintro ⟨e, he, hin⟩
    exact ⟨_, List.mem_map_of_mem he, hin⟩

/-- The file tracks that a table holds, each with the pack track that it lies on. -/
def pairs (t : ExtentTable) : List (Nat × Nat) := t.extents.flatMap Extent.pairs

theorem map_fst_pairs (t : ExtentTable) : t.pairs.map Prod.fst = t.fileTracks := by
  rw [pairs, List.map_flatMap, fileTracks, tracksIn, List.flatMap_map]
  exact List.flatMap_congr fun e _ => e.map_fst_pairs

theorem map_snd_pairs (t : ExtentTable) : t.pairs.map Prod.snd = t.packTracks := by
  rw [pairs, List.map_flatMap, packTracks, packRegions, tracksIn, List.flatMap_map]
  exact List.flatMap_congr fun e _ => e.map_snd_pairs

theorem pairs_perm {t : ExtentTable} {es : List Extent} (h : t.extents.Perm es) :
    t.pairs.Perm (es.flatMap Extent.pairs) := h.flatMap_right Extent.pairs

theorem length_packTracks (t : ExtentTable) : t.packTracks.length = t.tracks := by
  rw [packTracks, length_tracksIn, packRegions, List.map_map]
  rfl

/-- A table and an extent hold the same tracks as another table and extent. -/
def Same (t : ExtentTable) (e : Extent) (t' : ExtentTable) (e' : Extent) : Prop :=
  (e'.pairs ++ t'.pairs).Perm (e.pairs ++ t.pairs)

theorem Same.refl (t : ExtentTable) (e : Extent) : Same t e t e := List.Perm.refl _

theorem Same.trans {t t' t'' : ExtentTable} {e e' e'' : Extent} (h : Same t e t' e')
    (h' : Same t' e' t'' e'') : Same t e t'' e'' := List.Perm.trans h' h

/-! ### Tables in order -/

/-- Extents stand by ascending first file track, no two of which are the same, and none is empty. -/
structure Ascending (t : ExtentTable) : Prop where
  ordered : t.extents.Pairwise fun d e => d.fileTrack < e.fileTrack
  nonempty : ∀ e ∈ t.extents, 0 < e.count

theorem ascending_empty : Ascending {} := ⟨List.Pairwise.nil, fun _ h => (by cases h)⟩

namespace Ascending

variable {t : ExtentTable}

/-- No two extents of a table begin at the same file track. -/
theorem eq_of_fileTrack_eq (h : Ascending t) {c d : Extent} (hc : c ∈ t.extents)
    (hd : d ∈ t.extents) (heq : c.fileTrack = d.fileTrack) : c = d := by
  by_contra hne
  rcases pairwise_or h.ordered hc hd hne with hlt | hlt
  · omega
  · omega

theorem starts_subset (h : Ascending t) : ∀ s ∈ t.starts, s ∈ t.fileTracks := by
  intro s hs
  obtain ⟨e, he, rfl⟩ := List.mem_map.1 hs
  exact mem_fileTracks.2 ⟨e, he, Nat.le_refl _, Nat.lt_add_of_pos_right (h.nonempty e he)⟩

theorem nodup (h : Ascending t) : t.extents.Nodup :=
  h.ordered.imp fun hlt heq => Nat.ne_of_lt hlt (congrArg Extent.fileTrack heq)

theorem erase (h : Ascending t) (track : Nat) : Ascending (t.erase track) :=
  ⟨h.ordered.sublist List.filter_sublist, fun e he => h.nonempty e (List.mem_filter.1 he).1⟩

/-- A table is an extent of it and the others. -/
theorem perm_erase (h : Ascending t) {d : Extent} (hd : d ∈ t.extents) :
    t.extents.Perm (d :: (t.erase d.fileTrack).extents) := by
  refine (List.perm_ext_iff_of_nodup h.nodup ?_).2 ?_
  · refine List.nodup_cons.2 ⟨?_, (h.erase d.fileTrack).nodup⟩
    simp [ExtentTable.erase]
  · intro c
    rw [List.mem_cons, ExtentTable.erase, List.mem_filter]
    constructor
    · intro hc
      by_cases heq : c.fileTrack = d.fileTrack
      · exact Or.inl (h.eq_of_fileTrack_eq hc hd heq)
      · exact Or.inr ⟨hc, decide_eq_true heq⟩
    · rintro (rfl | ⟨hc, -⟩)
      · exact hd
      · exact hc

/-- An extent of a table that is made longer by the one that continues it holds the tracks of both. -/
theorem same_append (h : Ascending t) {d e : Extent} (hd : d ∈ t.extents)
    (hcontinues : d.Continues e) : Same t e (t.erase d.fileTrack) (d.append e) := by
  rw [Same, Extent.pairs_append hcontinues, List.append_assoc]
  refine List.Perm.trans ?_ ((pairs_perm (h.perm_erase hd)).append_left _).symm
  exact List.perm_append_comm_assoc _ _ _

/-- So does an extent that is made longer by one of the table that continues it. -/
theorem same_append_of_mem (h : Ascending t) {d e : Extent} (hd : d ∈ t.extents)
    (hcontinues : e.Continues d) : Same t e (t.erase d.fileTrack) (e.append d) := by
  rw [Same, Extent.pairs_append hcontinues, List.append_assoc]
  exact ((pairs_perm (h.perm_erase hd)).append_left _).symm

/-- Putting an extent in its place keeps the order, whatever started there. -/
theorem put (h : Ascending t) {e : Extent} (he : 0 < e.count) : Ascending (t.put e) := by
  refine ⟨?_, ?_⟩
  · rw [ExtentTable.put, List.pairwise_append, List.pairwise_cons]
    refine ⟨h.ordered.sublist List.filter_sublist,
      ⟨?_, h.ordered.sublist List.filter_sublist⟩, ?_⟩
    · intro d hd
      exact of_decide_eq_true (List.mem_filter.1 hd).2
    · intro c hc d hd
      have hlt := of_decide_eq_true (List.mem_filter.1 hc).2
      rcases List.mem_cons.1 hd with rfl | hd
      · exact hlt
      · exact Nat.lt_trans hlt (of_decide_eq_true (List.mem_filter.1 hd).2)
  · intro d hd
    rcases List.mem_append.1 hd with hd | hd
    · exact h.nonempty d (List.mem_filter.1 hd).1
    · rcases List.mem_cons.1 hd with rfl | hd
      · exact he
      · exact h.nonempty d (List.mem_filter.1 hd).1

end Ascending

/-! ### Absorbing neighbours -/

/-- An extent absorbs the one before it if it continues it. -/
theorem absorbBefore_of_continues {t : ExtentTable} {d e : Extent}
    (hbefore : t.before? e.fileTrack = some d) (hcontinues : d.Continues e) :
    t.absorbBefore e = (t.erase d.fileTrack, d.append e) := by
  rw [absorbBefore, hbefore]
  exact if_pos hcontinues

/-- An extent absorbs the one before it only if it continues it. -/
theorem absorbBefore_cases (t : ExtentTable) (e : Extent) :
    t.absorbBefore e = (t, e) ∨ ∃ d ∈ t.extents, d.Continues e ∧
      t.absorbBefore e = (t.erase d.fileTrack, d.append e) := by
  cases hlast : t.before? e.fileTrack with
  | none =>
      rw [absorbBefore, hlast]
      exact Or.inl rfl
  | some d =>
      by_cases hcontinues : d.Continues e
      · refine Or.inr ⟨d, ?_, hcontinues, absorbBefore_of_continues hlast hcontinues⟩
        exact (List.mem_filter.1 (List.mem_of_getLast? hlast)).1
      · rw [absorbBefore, hlast]
        exact Or.inl (if_neg hcontinues)

/-- An extent that continues none stays as it is, and so does the table. -/
theorem absorbBefore_of_not_continues {t : ExtentTable} {e : Extent}
    (h : ∀ d ∈ t.extents, ¬d.Continues e) : t.absorbBefore e = (t, e) :=
  (t.absorbBefore_cases e).resolve_right fun ⟨d, hd, hcontinues, _⟩ => h d hd hcontinues

/-- An extent absorbs the one after it if that continues it. -/
theorem absorbAfter_of_continues {t : ExtentTable} {d e : Extent}
    (hafter : t.startingAt? e.fileLimit = some d) (hcontinues : e.Continues d) :
    t.absorbAfter e = (t.erase d.fileTrack, e.append d) := by
  rw [absorbAfter, hafter]
  exact if_pos hcontinues

/-- An extent absorbs the one after it only if that continues it. -/
theorem absorbAfter_cases (t : ExtentTable) (e : Extent) :
    t.absorbAfter e = (t, e) ∨ ∃ d ∈ t.extents, e.Continues d ∧
      t.absorbAfter e = (t.erase d.fileTrack, e.append d) := by
  cases hnext : t.startingAt? e.fileLimit with
  | none =>
      rw [absorbAfter, hnext]
      exact Or.inl rfl
  | some d =>
      by_cases hcontinues : e.Continues d
      · exact Or.inr ⟨d, List.mem_of_find?_eq_some hnext, hcontinues,
          absorbAfter_of_continues hnext hcontinues⟩
      · rw [absorbAfter, hnext]
        exact Or.inl (if_neg hcontinues)

/-- An extent that none continues stays as it is, and so does the table. -/
theorem absorbAfter_of_not_continues {t : ExtentTable} {e : Extent}
    (h : ∀ d ∈ t.extents, ¬e.Continues d) : t.absorbAfter e = (t, e) :=
  (t.absorbAfter_cases e).resolve_right fun ⟨d, hd, hcontinues, _⟩ => h d hd hcontinues

/-- **Every table stays in order** to which extents are added, wherever they start. -/
theorem Ascending.insert {t : ExtentTable} (h : Ascending t) (e : Extent) :
    Ascending (t.insert e) := by
  rw [ExtentTable.insert]
  split
  · exact h
  · rename_i hzero
    have hfirst : Ascending (t.absorbBefore e).1 ∧ 0 < (t.absorbBefore e).2.count := by
      rcases t.absorbBefore_cases e with heq | ⟨d, hd, -, heq⟩
      · rw [heq]
        exact ⟨h, Nat.pos_of_ne_zero hzero⟩
      · rw [heq]
        exact ⟨h.erase _, Nat.add_pos_left (h.nonempty d hd) _⟩
    generalize t.absorbBefore e = first at hfirst ⊢
    obtain ⟨t, e⟩ := first
    obtain ⟨h, he⟩ := hfirst
    dsimp only
    rcases t.absorbAfter_cases e with heq | ⟨d, -, -, heq⟩
    · rw [heq]
      exact h.put he
    · rw [heq]
      exact (h.erase _).put (Nat.add_pos_left he _)

theorem Ascending.foldl_insert {t : ExtentTable} (h : Ascending t) (es : List Extent) :
    Ascending (es.foldl ExtentTable.insert t) := by
  induction es generalizing t with
  | nil => exact h
  | cons e es ih => exact ih (h.insert e)

/-! ### Where extents start -/

theorem starts_erase_subset (t : ExtentTable) (track : Nat) :
    ∀ s ∈ (t.erase track).starts, s ∈ t.starts ∧ s ≠ track := by
  intro s hs
  obtain ⟨d, hd, rfl⟩ := List.mem_map.1 hs
  obtain ⟨hd, hne⟩ := List.mem_filter.1 hd
  exact ⟨List.mem_map_of_mem hd, of_decide_eq_true hne⟩

theorem starts_absorbBefore_subset (t : ExtentTable) (e : Extent) :
    ∀ s ∈ (t.absorbBefore e).2.fileTrack :: (t.absorbBefore e).1.starts,
      s ∈ e.fileTrack :: t.starts := by
  rcases t.absorbBefore_cases e with heq | ⟨d, hd, -, heq⟩
  · rw [heq]
    exact fun s hs => hs
  · rw [heq]
    refine List.forall_mem_cons.2 ⟨List.mem_cons_of_mem _ (List.mem_map.2 ⟨d, hd, rfl⟩), ?_⟩
    exact fun s hs => List.mem_cons_of_mem _ (starts_erase_subset t _ s hs).1

theorem starts_absorbAfter_subset (t : ExtentTable) (e : Extent) :
    ∀ s ∈ (t.absorbAfter e).2.fileTrack :: (t.absorbAfter e).1.starts,
      s ∈ e.fileTrack :: t.starts := by
  rcases t.absorbAfter_cases e with heq | ⟨d, -, -, heq⟩
  · rw [heq]
    exact fun s hs => hs
  · rw [heq]
    refine List.forall_mem_cons.2 ⟨List.mem_cons_self, ?_⟩
    exact fun s hs => List.mem_cons_of_mem _ (starts_erase_subset t _ s hs).1

theorem starts_put_subset (t : ExtentTable) (e : Extent) :
    ∀ s ∈ (t.put e).starts, s ∈ e.fileTrack :: t.starts := by
  intro s hs
  obtain ⟨d, hd, rfl⟩ := List.mem_map.1 hs
  rcases List.mem_append.1 hd with hd | hd
  · exact List.mem_cons_of_mem _ (List.mem_map_of_mem (List.mem_filter.1 hd).1)
  · rcases List.mem_cons.1 hd with rfl | hd
    · exact List.mem_cons_self
    · exact List.mem_cons_of_mem _ (List.mem_map_of_mem (List.mem_filter.1 hd).1)

/-- **Extents start where they did, or where the one starts that is added.** -/
theorem starts_insert_subset (t : ExtentTable) (e : Extent) :
    ∀ s ∈ (t.insert e).starts, s ∈ e.fileTrack :: t.starts := by
  rw [ExtentTable.insert]
  split
  · exact fun s hs => List.mem_cons_of_mem _ hs
  · intro s hs
    exact starts_absorbBefore_subset t e s
      (starts_absorbAfter_subset _ _ s (starts_put_subset _ _ s hs))

theorem starts_foldl_insert_subset (t : ExtentTable) (es : List Extent) :
    ∀ s ∈ (es.foldl ExtentTable.insert t).starts, s ∈ es.map Extent.fileTrack ∨ s ∈ t.starts := by
  induction es generalizing t with
  | nil => exact fun s hs => Or.inr hs
  | cons e es ih =>
      intro s hs
      rcases ih (t.insert e) s hs with hes | ht
      · exact Or.inl (List.mem_cons_of_mem _ hes)
      · rcases List.mem_cons.1 (starts_insert_subset t e s ht) with rfl | ht
        · exact Or.inl List.mem_cons_self
        · exact Or.inr ht

/-! ### Adding an extent where none starts -/

/-- An extent may be added to a table: it is not empty, and none of the table starts where it does. -/
structure Admits (t : ExtentTable) (e : Extent) : Prop where
  ascending : t.Ascending
  nonempty : 0 < e.count
  clear : e.fileTrack ∉ t.starts

namespace Admits

variable {t : ExtentTable} {e : Extent}

theorem absorbBefore (h : Admits t e) :
    Admits (t.absorbBefore e).1 (t.absorbBefore e).2 ∧
      Same t e (t.absorbBefore e).1 (t.absorbBefore e).2 := by
  rcases t.absorbBefore_cases e with heq | ⟨d, hd, hcontinues, heq⟩
  · rw [heq]
    exact ⟨h, Same.refl t e⟩
  · rw [heq]
    refine ⟨⟨h.ascending.erase _, Nat.add_pos_left (h.ascending.nonempty d hd) _, ?_⟩,
      h.ascending.same_append hd hcontinues⟩
    exact fun hin => (starts_erase_subset t d.fileTrack _ hin).2 rfl

theorem absorbAfter (h : Admits t e) :
    Admits (t.absorbAfter e).1 (t.absorbAfter e).2 ∧
      Same t e (t.absorbAfter e).1 (t.absorbAfter e).2 := by
  rcases t.absorbAfter_cases e with heq | ⟨d, hd, hcontinues, heq⟩
  · rw [heq]
    exact ⟨h, Same.refl t e⟩
  · rw [heq]
    refine ⟨⟨h.ascending.erase _, Nat.add_pos_left h.nonempty _, ?_⟩,
      h.ascending.same_append_of_mem hd hcontinues⟩
    exact fun hin => h.clear (starts_erase_subset t d.fileTrack _ hin).1

/-- An extent that is put in its place is the only one that is new, and drives none out. -/
theorem put (h : Admits t e) : (t.put e).extents.Perm (e :: t.extents) := by
  have hne : ∀ d ∈ t.extents, e.fileTrack < d.fileTrack ↔ ¬d.fileTrack < e.fileTrack := by
    intro d hd
    have hstart : d.fileTrack ≠ e.fileTrack := fun heq => h.clear (List.mem_map.2 ⟨d, hd, heq⟩)
    omega
  rw [ExtentTable.put]
  refine List.perm_middle.trans (List.Perm.cons e ?_)
  refine List.Perm.trans (List.Perm.append_left _ (List.Perm.of_eq ?_))
    (List.filter_append_perm (fun d : Extent => decide (d.fileTrack < e.fileTrack)) t.extents)
  refine List.filter_congr ?_
  intro d hd
  rw [Bool.eq_iff_iff, decide_eq_true_eq, hne d hd]
  simp

/-- **What a table holds to which an extent was added**: its tracks and those of the extent, each
where it lay. -/
theorem pairs_insert (h : Admits t e) : (t.insert e).pairs.Perm (e.pairs ++ t.pairs) := by
  rw [ExtentTable.insert, if_neg (Nat.ne_of_gt h.nonempty)]
  -- what each neighbour absorbs is admitted in turn by what is left of the table
  obtain ⟨hbefore, hsame⟩ := h.absorbBefore
  obtain ⟨hafter, hsame'⟩ := hbefore.absorbAfter
  exact (pairs_perm hafter.put).trans (hsame.trans hsame')

/-- The tracks of the file and of the pack that a table holds to which an extent was added. -/
theorem insert (h : Admits t e) :
    Ascending (t.insert e) ∧ (t.insert e).fileTracks.Perm (e.fileRegion.tracks ++ t.fileTracks) ∧
      (t.insert e).packTracks.Perm (e.packRegion.tracks ++ t.packTracks) ∧
      ∀ s ∈ (t.insert e).starts, s ∈ e.fileTrack :: t.starts := by
  have hfile := h.pairs_insert.map Prod.fst
  have hpack := h.pairs_insert.map Prod.snd
  rw [List.map_append, Extent.map_fst_pairs, map_fst_pairs, map_fst_pairs] at hfile
  rw [List.map_append, Extent.map_snd_pairs, map_snd_pairs, map_snd_pairs] at hpack
  exact ⟨h.ascending.insert e, hfile, hpack, starts_insert_subset t e⟩

end Admits

/-! ### Adding a run of file tracks -/

/-- **Adding consecutive file tracks** none of which is the start of an extent: they lie on the given
regions in turn, and all others where they lay. -/
theorem Ascending.pairs_insertRegions {t : ExtentTable} (h : Ascending t) (first : Nat)
    {regions : List Region} (hpos : ∀ r ∈ regions, 0 < r.count)
    (hout : ∀ s ∈ t.starts, s ∉ List.range' first (tracksIn regions).length) :
    Ascending (t.insertRegions first regions) ∧
      (t.insertRegions first regions).pairs.Perm
        ((List.range' first (tracksIn regions).length).zip (tracksIn regions) ++ t.pairs) ∧
      ∀ s ∈ (t.insertRegions first regions).starts,
        s ∈ List.range' first (tracksIn regions).length ++ t.starts := by
  induction regions generalizing t first with
  | nil => exact ⟨h, List.Perm.refl _, fun s hs => hs⟩
  | cons r regions ih =>
      have hr := hpos r List.mem_cons_self
      have hself : first ∈ List.range' first r.count :=
        List.mem_range'_1.2 ⟨Nat.le_refl _, by omega⟩
      have hlength : (List.range' first r.count).length = r.tracks.length := by
        rw [List.length_range', Region.length_tracks]
      rw [tracksIn_cons, List.length_append, Region.length_tracks, ← List.range'_append_1] at hout ⊢
      have hadmits : Admits t ⟨first, r.first, r.count⟩ :=
        ⟨h, hr, fun hin => hout first hin (List.mem_append_left _ hself)⟩
      have hstarts := starts_insert_subset t ⟨first, r.first, r.count⟩
      -- the first region lies on the tracks from the first one on, the others behind them
      obtain ⟨hafter, hpairs, hstartsAfter⟩ := ih (h.insert ⟨first, r.first, r.count⟩)
        (first + r.count) (fun other hother => hpos other (List.mem_cons_of_mem _ hother)) (by
          intro s hs hin
          rcases List.mem_cons.1 (hstarts s hs) with rfl | hs
          · rw [List.mem_range'_1] at hin
            omega
          · exact hout s hs (List.mem_append_right _ hin))
      refine ⟨hafter, hpairs.trans ?_, ?_⟩
      · rw [List.zip_append hlength, List.append_assoc]
        exact (hadmits.pairs_insert.append_left _).trans (List.perm_append_comm_assoc _ _ _)
      · intro s hs
        rcases List.mem_append.1 (hstartsAfter s hs) with hin | hin
        · exact List.mem_append_left _ (List.mem_append_right _ hin)
        · rcases List.mem_cons.1 (hstarts s hin) with rfl | hold
          · exact List.mem_append_left _ (List.mem_append_left _ hself)
          · exact List.mem_append_right _ hold

/-- The tracks of the file and of the pack that a table holds to which consecutive file tracks were
added. -/
theorem Ascending.insertRegions {t : ExtentTable} (h : Ascending t) (first : Nat)
    {regions : List Region} (hpos : ∀ r ∈ regions, 0 < r.count)
    (hout : ∀ s ∈ t.starts, s ∉ List.range' first (tracksIn regions).length) :
    Ascending (t.insertRegions first regions) ∧
      (t.insertRegions first regions).fileTracks.Perm
        (List.range' first (tracksIn regions).length ++ t.fileTracks) ∧
      (t.insertRegions first regions).packTracks.Perm (tracksIn regions ++ t.packTracks) ∧
      ∀ s ∈ (t.insertRegions first regions).starts,
        s ∈ List.range' first (tracksIn regions).length ++ t.starts := by
  obtain ⟨hafter, hpairs, hstarts⟩ := h.pairs_insertRegions first hpos hout
  have hlength : (List.range' first (tracksIn regions).length).length = (tracksIn regions).length :=
    List.length_range'
  have hfile := hpairs.map Prod.fst
  have hpack := hpairs.map Prod.snd
  rw [List.map_append, List.map_fst_zip (Nat.le_of_eq hlength), map_fst_pairs, map_fst_pairs] at hfile
  rw [List.map_append, List.map_snd_zip (Nat.le_of_eq hlength.symm), map_snd_pairs, map_snd_pairs]
    at hpack
  exact ⟨hafter, hfile, hpack, hstarts⟩

/-! ### Gaps -/

/-- Between ascending extents there are gaps, in ascending order. -/
theorem Ascending.gapsFrom {es : List Extent} (h : Ascending ⟨es⟩) (cursor limit : Nat)
    (hlimit : ∀ e ∈ es, e.fileTrack < limit) :
    (tracksIn (gapsFrom cursor limit es)).Nodup ∧
      ∀ track ∈ tracksIn (gapsFrom cursor limit es), cursor ≤ track ∧ track < limit ∧
        ∀ e ∈ es, ¬(e.fileTrack ≤ track ∧ track < e.fileLimit) := by
  induction es generalizing cursor with
  | nil =>
      refine ⟨nodup_tracksIn_between cursor limit, ?_⟩
      intro track htrack
      obtain ⟨hle, hlt⟩ := mem_tracksIn_between.1 htrack
      exact ⟨hle, hlt, fun e he => (by cases he)⟩
  | cons e es ih =>
      have hbehind : ∀ d ∈ es, e.fileTrack < d.fileTrack := (List.pairwise_cons.1 h.ordered).1
      have htail : Ascending ⟨es⟩ := ⟨(List.pairwise_cons.1 h.ordered).2,
        fun d hd => h.nonempty d (List.mem_cons_of_mem _ hd)⟩
      have he := hlimit e List.mem_cons_self
      have helimit : e.fileLimit = e.fileTrack + e.count := rfl
      obtain ⟨hnodup, htracks⟩ := ih htail (max cursor e.fileLimit)
        fun d hd => hlimit d (List.mem_cons_of_mem _ hd)
      -- the gap before the first extent, and those behind it
      have hparts : tracksIn (ExtentTable.gapsFrom cursor limit (e :: es)) =
          tracksIn (between cursor e.fileTrack) ++
            tracksIn (ExtentTable.gapsFrom (max cursor e.fileLimit) limit es) := tracksIn_append _ _
      rw [hparts]
      refine ⟨?_, ?_⟩
      · refine List.nodup_append.2 ⟨nodup_tracksIn_between _ _, hnodup, ?_⟩
        rintro track hin other hother rfl
        have := (mem_tracksIn_between.1 hin).2
        have := (htracks track hother).1
        omega
      · intro track htrack
        rcases List.mem_append.1 htrack with hin | hin
        · obtain ⟨hle, hlt⟩ := mem_tracksIn_between.1 hin
          refine ⟨hle, by omega, ?_⟩
          intro d hd
          rcases List.mem_cons.1 hd with rfl | hd
          · omega
          · have := hbehind d hd
            omega
        · obtain ⟨hle, hlt, hnone⟩ := htracks track hin
          refine ⟨by omega, hlt, ?_⟩
          intro d hd
          rcases List.mem_cons.1 hd with rfl | hd
          · omega
          · exact hnone d hd

/-- **The gaps of a region** are told apart and lie in the region, and no extent starts in one. -/
theorem Ascending.gaps {t : ExtentTable} (h : Ascending t) (r : Region) :
    (tracksIn (t.gaps r)).Nodup ∧
      ∀ track ∈ tracksIn (t.gaps r), track ∈ r ∧ track ∉ t.starts := by
  rw [ExtentTable.gaps]
  generalize hstart : ((t.before? r.first).map Extent.fileTrack).getD r.first = start
  have hsub : Ascending ⟨t.extents.filter fun e => start ≤ e.fileTrack && e.fileTrack < r.limit⟩ :=
    ⟨h.ordered.sublist List.filter_sublist, fun e he => h.nonempty e (List.mem_filter.1 he).1⟩
  obtain ⟨hnodup, htracks⟩ := hsub.gapsFrom r.first r.limit (by
    intro e he
    have hin := (List.mem_filter.1 he).2
    rw [Bool.and_eq_true, decide_eq_true_eq, decide_eq_true_eq] at hin
    exact hin.2)
  refine ⟨hnodup, ?_⟩
  intro track htrack
  obtain ⟨hle, hlt, hnone⟩ := htracks track htrack
  refine ⟨⟨hle, hlt⟩, ?_⟩
  rintro hin
  obtain ⟨e, he, rfl⟩ := List.mem_map.1 hin
  -- an extent that starts in the region is one of those that are looked at
  have hbefore : start ≤ r.first := by
    rw [← hstart]
    cases hlast : t.before? r.first with
    | none => exact Nat.le_refl _
    | some d =>
        have hd := List.mem_of_getLast? hlast
        exact Nat.le_of_lt (of_decide_eq_true (List.mem_filter.1 hd).2)
  have hpos := h.nonempty e he
  have helimit : e.fileLimit = e.fileTrack + e.count := rfl
  refine hnone e (List.mem_filter.2 ⟨he, ?_⟩) ⟨Nat.le_refl _, by omega⟩
  rw [Bool.and_eq_true, decide_eq_true_eq, decide_eq_true_eq]
  exact ⟨Nat.le_trans hbefore hle, hlt⟩

/-- Between two tracks, whatever is in none of the extents that are looked at is in a gap. -/
theorem mem_gapsFrom_or (es : List Extent) {cursor limit track : Nat} (hle : cursor ≤ track)
    (hlt : track < limit) : track ∈ tracksIn (gapsFrom cursor limit es) ∨
      ∃ e ∈ es, e.fileTrack ≤ track ∧ track < e.fileLimit := by
  induction es generalizing cursor with
  | nil => exact Or.inl (mem_tracksIn_between.2 ⟨hle, hlt⟩)
  | cons e es ih =>
      have hparts : tracksIn (gapsFrom cursor limit (e :: es)) =
          tracksIn (between cursor e.fileTrack) ++
            tracksIn (gapsFrom (max cursor e.fileLimit) limit es) := tracksIn_append _ _
      rw [hparts, List.mem_append]
      by_cases hbefore : track < e.fileTrack
      · exact Or.inl (Or.inl (mem_tracksIn_between.2 ⟨hle, hbefore⟩))
      · by_cases hinside : track < e.fileLimit
        · exact Or.inr ⟨e, List.mem_cons_self, Nat.not_lt.1 hbefore, hinside⟩
        · rcases ih (Nat.max_le.2 ⟨hle, Nat.not_lt.1 hinside⟩) with hgap | ⟨d, hd, hin⟩
          · exact Or.inl (Or.inr hgap)
          · exact Or.inr ⟨d, List.mem_cons_of_mem _ hd, hin⟩

/-- **A track of a region is in a gap or in the table.** -/
theorem mem_gaps_or_mem_fileTracks (t : ExtentTable) {r : Region} {track : Nat} (h : track ∈ r) :
    track ∈ tracksIn (t.gaps r) ∨ track ∈ t.fileTracks := by
  refine (mem_gapsFrom_or _ h.1 h.2).imp_right ?_
  rintro ⟨e, he, hin⟩
  exact mem_fileTracks.2 ⟨e, (List.mem_filter.1 he).1, hin⟩

theorem mem_fileTracks_of_covers {t : ExtentTable} {r : Region} {track : Nat}
    (h : t.covers r = true) (htrack : track ∈ r) : track ∈ t.fileTracks := by
  rcases t.mem_gaps_or_mem_fileTracks htrack with hgap | hin
  · rw [List.isEmpty_iff.1 h] at hgap
    cases hgap
  · exact hin

end ExtentTable

/-! ### Filling gaps -/

namespace Catalog

/-- **What filling a gap takes from the pack and adds to the file**: as many tracks as the gap has, and
all other tracks of the file stay where they lie. -/
theorem fill_gap {space between : FreeSpace} {table : ExtentTable} {gap : Region}
    {regions : List Region} (hspace : space.Sound) (htable : table.Ascending)
    (hout : ∀ track ∈ gap.tracks, track ∉ table.starts)
    (hallocate : space.allocate gap.count = some (regions, between)) :
    (between.Sound ∧ between.capacity = space.capacity) ∧
      ((table.insertRegions gap.first regions).Ascending ∧
        ∀ s ∈ (table.insertRegions gap.first regions).starts, s ∈ gap.tracks ++ table.starts) ∧
      (∀ pair ∈ table.pairs, pair ∈ (table.insertRegions gap.first regions).pairs) ∧
      (table.insertRegions gap.first regions).fileTracks.Perm (gap.tracks ++ table.fileTracks) ∧
      ((table.insertRegions gap.first regions).packTracks ++ tracksIn between.regions).Perm
        (table.packTracks ++ tracksIn space.regions) := by
  obtain ⟨hsound, hcapacity, hpos, hlength, hperm⟩ := hspace.allocate_spec hallocate
  have hgap : List.range' gap.first (tracksIn regions).length = gap.tracks := by
    rw [hlength]
    rfl
  have hclear : ∀ s ∈ table.starts, s ∉ List.range' gap.first (tracksIn regions).length := by
    rw [hgap]
    exact fun s hs hin => hout s hin hs
  obtain ⟨-, hpairs, -⟩ := htable.pairs_insertRegions gap.first hpos hclear
  obtain ⟨hascending, hfile, hpack, hstarts⟩ := htable.insertRegions gap.first hpos hclear
  rw [hgap] at hfile hstarts
  refine ⟨⟨hsound, hcapacity⟩, ⟨hascending, hstarts⟩, ?_, hfile, ?_⟩
  · exact fun pair hpair => hpairs.mem_iff.2 (List.mem_append_right _ hpair)
  · refine (hpack.append_right _).trans (List.Perm.trans ?_ (hperm.append_left _).symm)
    rw [List.append_assoc]
    exact List.perm_append_comm_assoc _ _ _

/-- **What filling gaps takes from the pack and adds to the file**: the tracks of the gaps, and all
other tracks of the file stay where they lie. -/
theorem fill_spec {space after : FreeSpace} {table table' : ExtentTable}
    {gaps : List Region} (hspace : space.Sound) (htable : table.Ascending)
    (hnodup : (tracksIn gaps).Nodup) (hout : ∀ track ∈ tracksIn gaps, track ∉ table.starts)
    (hfill : fill space table gaps = (none, after, table')) :
    after.Sound ∧ after.capacity = space.capacity ∧ table'.Ascending ∧
      (∀ pair ∈ table.pairs, pair ∈ table'.pairs) ∧
      table'.fileTracks.Perm (tracksIn gaps ++ table.fileTracks) ∧
      (table'.packTracks ++ tracksIn after.regions).Perm
        (table.packTracks ++ tracksIn space.regions) := by
  induction gaps generalizing space table with
  | nil =>
      cases hfill
      exact ⟨hspace, rfl, htable, fun _ hpair => hpair, List.Perm.refl _, List.Perm.refl _⟩
  | cons gap gaps ih =>
      rw [fill] at hfill
      rw [tracksIn_cons] at hnodup hout ⊢
      obtain ⟨-, hrest, hapart⟩ := List.nodup_append.1 hnodup
      cases hallocate : space.allocate gap.count with
      | none =>
          rw [hallocate] at hfill
          cases hfill
      | some result =>
          obtain ⟨regions, between⟩ := result
          rw [hallocate] at hfill
          obtain ⟨⟨hsound, hcapacity⟩, ⟨hascending, hstarts⟩, hkept, hfile, hpack⟩ :=
            fill_gap hspace htable (fun track htrack => hout track (List.mem_append_left _ htrack))
              hallocate
          -- the other gaps are apart from the extents that were there and from this gap
          have hclear : ∀ track ∈ tracksIn gaps,
              track ∉ (table.insertRegions gap.first regions).starts := by
            intro track htrack hin
            rcases List.mem_append.1 (hstarts track hin) with hnew | hold
            · exact hapart _ hnew _ htrack rfl
            · exact hout track (List.mem_append_right _ htrack) hold
          obtain ⟨hafter, hcapacityAfter, hascendingAfter, hkeptAfter, hfileAfter, hpackAfter⟩ :=
            ih hsound hascending hrest hclear hfill
          refine ⟨hafter, hcapacityAfter.trans hcapacity, hascendingAfter,
            fun pair hpair => hkeptAfter pair (hkept pair hpair), hfileAfter.trans ?_,
            hpackAfter.trans hpack⟩
          rw [List.append_assoc]
          exact (hfile.append_left _).trans (List.perm_append_comm_assoc _ _ _)

/-- **No gap is refused when there are as many free tracks as all gaps have**, however the free tracks
and the extents lie. -/
theorem fill_of_length_le {space : FreeSpace} {table : ExtentTable} {gaps : List Region}
    (h : (tracksIn gaps).length ≤ space.free) : (fill space table gaps).1 = none := by
  induction gaps generalizing space table with
  | nil => rfl
  | cons gap gaps ih =>
      rw [tracksIn_cons, List.length_append, Region.length_tracks] at h
      rw [fill]
      cases hallocate : space.allocate gap.count with
      | none =>
          have := FreeSpace.allocate_eq_none_iff.1 hallocate
          omega
      | some result =>
          have hleft := FreeSpace.sub_le_free_of_allocate hallocate
          exact ih (by omega)

end Catalog

end FileDirectory
