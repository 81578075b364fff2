/-
**Allocation tables are canonical.**

A table has one form for the tracks that it holds: its extents stand in the order of the file, they do
not overlap, and none continues another.  Adding tracks that are not in the table keeps this form,
neither losing a track nor doubling one, and adding the extents of such a table one by one to an
empty table gives the table back.

Main definitions:

* `FileDirectory.ExtentTable.Canonical` — the form of a table.

Main results:

* `FileDirectory.ExtentTable.Canonical.insert` — adding an extent keeps the form;
* `FileDirectory.ExtentTable.foldl_insert` — a table is built from its own extents;
* `FileDirectory.ExtentTable.Canonical.fill` — so does filling gaps.
-/

import FileDirectory.Proofs.Pack.Ascending

set_option autoImplicit false

namespace FileDirectory

namespace ExtentTable

/-- Extents stand in the order of the file without overlapping, none is empty and none continues
another. -/
structure Canonical (t : ExtentTable) : Prop where
  ordered : t.extents.Pairwise fun d e => d.fileLimit ≤ e.fileTrack ∧ ¬d.Continues e
  nonempty : ∀ e ∈ t.extents, 0 < e.count

theorem canonical_empty : Canonical {} := ⟨List.Pairwise.nil, fun _ h => (by cases h)⟩

/-- No file track of an extent is in the table. -/
def Apart (t : ExtentTable) (e : Extent) : Prop :=
  ∀ d ∈ t.extents, d.fileLimit ≤ e.fileTrack ∨ e.fileLimit ≤ d.fileTrack

theorem apart_of_notMem {t : ExtentTable} (h : Canonical t) {e : Extent} (he : 0 < e.count)
    (hout : ∀ track, e.fileTrack ≤ track → track < e.fileLimit → track ∉ t.fileTracks) :
    Apart t e := by
  intro d hd
  by_contra hcross
  have hdlimit : d.fileLimit = d.fileTrack + d.count := rfl
  have helimit : e.fileLimit = e.fileTrack + e.count := rfl
  have hpos := h.nonempty d hd
  -- the later of the two first tracks would be in both
  refine hout (max d.fileTrack e.fileTrack) (by omega) (by omega) (mem_fileTracks.2 ⟨d, hd, ?_⟩)
  omega

namespace Canonical

variable {t : ExtentTable} {c d : Extent}

/-- Of two extents of a table one ends before the other begins. -/
theorem cases_of_mem (h : Canonical t) (hc : c ∈ t.extents) (hd : d ∈ t.extents) :
    c = d ∨ (c.fileLimit ≤ d.fileTrack ∧ ¬c.Continues d) ∨
      (d.fileLimit ≤ c.fileTrack ∧ ¬d.Continues c) := by
  by_cases heq : c = d
  · exact Or.inl heq
  · exact Or.inr (pairwise_or h.ordered hc hd heq)

theorem ascending (h : Canonical t) : Ascending t := by
  refine ⟨(List.Pairwise.and_mem.1 h.ordered).imp ?_, h.nonempty⟩
  rintro d e ⟨hd, -, hle, -⟩
  have hpos := h.nonempty d hd
  have hlimit : d.fileLimit = d.fileTrack + d.count := rfl
  omega

theorem erase (h : Canonical t) (track : Nat) : Canonical (t.erase track) :=
  ⟨h.ordered.sublist List.filter_sublist, fun e he => h.nonempty e (List.mem_filter.1 he).1⟩

/-- Each of the others ends before an extent of the table begins, or begins after it ends. -/
theorem cases_of_mem_erase (h : Canonical t) (hd : d ∈ t.extents)
    (hc : c ∈ (t.erase d.fileTrack).extents) :
    (c.fileLimit ≤ d.fileTrack ∧ ¬c.Continues d) ∨ (d.fileLimit ≤ c.fileTrack ∧ ¬d.Continues c) := by
  obtain ⟨hc, hne⟩ := List.mem_filter.1 hc
  refine (h.cases_of_mem hc hd).resolve_left ?_
  rintro rfl
  exact of_decide_eq_true hne rfl

/-- An extent of the table and the others do not continue each other. -/
theorem not_continues_of_mem_erase (h : Canonical t) (hd : d ∈ t.extents)
    (hc : c ∈ (t.erase d.fileTrack).extents) : ¬c.Continues d ∧ ¬d.Continues c := by
  have hcpos := h.nonempty c (List.mem_filter.1 hc).1
  have hdpos := h.nonempty d hd
  have hclimit : c.fileLimit = c.fileTrack + c.count := rfl
  have hdlimit : d.fileLimit = d.fileTrack + d.count := rfl
  rcases h.cases_of_mem_erase hd hc with ⟨hle, hnot⟩ | ⟨hle, hnot⟩
  · refine ⟨hnot, fun hbad => ?_⟩
    have hmeets : d.fileLimit = c.fileTrack := hbad.1
    omega
  · refine ⟨fun hbad => ?_, hnot⟩
    have hmeets : c.fileLimit = d.fileTrack := hbad.1
    omega

end Canonical

/-- An extent whose file tracks are not in a table may be added to it. -/
theorem Apart.admits {t : ExtentTable} {e : Extent} (hapart : Apart t e) (h : Canonical t)
    (he : 0 < e.count) : Admits t e := by
  refine ⟨h.ascending, he, ?_⟩
  intro hin
  obtain ⟨d, hd, heq⟩ := List.mem_map.1 hin
  have hpos := h.nonempty d hd
  have hdlimit : d.fileLimit = d.fileTrack + d.count := rfl
  have helimit : e.fileLimit = e.fileTrack + e.count := rfl
  have := hapart d hd
  omega

/-! ### Absorbing neighbours -/

section Absorbing

variable {t : ExtentTable} {d e : Extent}

theorem Apart.erase (h : Apart t e) (track : Nat) : Apart (t.erase track) e :=
  fun c hc => h c (List.mem_filter.1 hc).1

/-- An extent of a table is apart from the others. -/
theorem Canonical.apart_erase (h : Canonical t) (hd : d ∈ t.extents) :
    Apart (t.erase d.fileTrack) d :=
  fun _ hc => (h.cases_of_mem_erase hd hc).imp And.left And.left

/-- An extent and the one that continues it are one extent that is apart from what both are apart
from. -/
theorem Apart.append (hd : Apart t d) (he : Apart t e) (hcontinues : d.Continues e)
    (hpos : ∀ c ∈ t.extents, 0 < c.count) : Apart t (d.append e) := by
  intro c hc
  have hcpos := hpos c hc
  have hclimit : c.fileLimit = c.fileTrack + c.count := rfl
  have hmeets : d.fileLimit = e.fileTrack := hcontinues.1
  rw [Extent.fileTrack_append, Extent.fileLimit_append hcontinues]
  rcases hd c hc with hle | hle
  · exact Or.inl hle
  · have := he c hc
    omega

/-- The extent of a table that is continued by another one is the last to begin before that. -/
theorem Canonical.before?_of_continues (h : Canonical t) (hd : d ∈ t.extents)
    (hcontinues : d.Continues e) : t.before? e.fileTrack = some d := by
  have hpos := h.nonempty d hd
  have hlimit : d.fileLimit = d.fileTrack + d.count := rfl
  have hmeets : d.fileLimit = e.fileTrack := hcontinues.1
  have hbegins : d ∈ t.extents.filter fun c => c.fileTrack < e.fileTrack :=
    List.mem_filter.2 ⟨hd, decide_eq_true (by omega)⟩
  have hsorted : (t.extents.filter fun c => c.fileTrack < e.fileTrack).Pairwise
      fun c c' => c.fileLimit ≤ c'.fileTrack ∧ ¬c.Continues c' := h.ordered.sublist List.filter_sublist
  rw [before?]
  cases hlast : (t.extents.filter fun c => c.fileTrack < e.fileTrack).getLast? with
  | none =>
      rw [List.getLast?_eq_none_iff.1 hlast] at hbegins
      cases hbegins
  | some last =>
      obtain ⟨before, hsplit⟩ := List.getLast?_eq_some_iff.1 hlast
      have hlt := of_decide_eq_true (List.mem_filter.1 (List.mem_of_getLast? hlast)).2
      rw [hsplit] at hbegins hsorted
      rcases List.mem_append.1 hbegins with hearlier | hlast
      · -- it would end before the last one begins, and that begins before `e`
        have hle := ((List.pairwise_append.1 hsorted).2.2 d hearlier last List.mem_cons_self).1
        omega
      · exact congrArg some (List.mem_singleton.1 hlast).symm

/-- The extent of a table that continues another one starts where that ends. -/
theorem Canonical.startingAt?_of_continues (h : Canonical t) (hd : d ∈ t.extents)
    (hcontinues : e.Continues d) : t.startingAt? e.fileLimit = some d := by
  have hmeets : e.fileLimit = d.fileTrack := hcontinues.1
  rw [startingAt?]
  cases hfind : t.extents.find? fun c => c.fileTrack = e.fileLimit with
  | none => exact absurd (decide_eq_true hmeets.symm) (List.find?_eq_none.1 hfind d hd)
  | some c =>
      have hfirst : c.fileTrack = e.fileLimit := by simpa using List.find?_some hfind
      have hc := List.mem_of_find?_eq_some hfind
      exact congrArg some (h.ascending.eq_of_fileTrack_eq hc hd (hfirst.trans hmeets))

/-- What absorbing the extent before `e` leaves: an extent that continues none of the others. -/
theorem absorbBefore_spec (h : Canonical t) (he : 0 < e.count) (hapart : Apart t e) :
    Canonical (t.absorbBefore e).1 ∧ 0 < (t.absorbBefore e).2.count ∧
      Apart (t.absorbBefore e).1 (t.absorbBefore e).2 ∧
      ∀ d ∈ (t.absorbBefore e).1.extents, ¬d.Continues (t.absorbBefore e).2 := by
  by_cases hexists : ∃ d ∈ t.extents, d.Continues e
  · obtain ⟨d, hd, hcontinues⟩ := hexists
    rw [absorbBefore_of_continues (h.before?_of_continues hd hcontinues) hcontinues]
    refine ⟨h.erase _, Nat.add_pos_left (h.nonempty d hd) _, ?_, fun c hc => ?_⟩
    · exact (h.apart_erase hd).append (hapart.erase _) hcontinues (h.erase _).nonempty
    · exact (h.not_continues_of_mem_erase hd hc).1
  · have hnone : ∀ d ∈ t.extents, ¬d.Continues e := fun d hd hbad => hexists ⟨d, hd, hbad⟩
    rw [absorbBefore_of_not_continues hnone]
    exact ⟨h, he, hapart, hnone⟩

/-- What absorbing the extent after `e` leaves: an extent that none of the others continues. -/
theorem absorbAfter_spec (h : Canonical t) (he : 0 < e.count) (hapart : Apart t e)
    (hfirst : ∀ d ∈ t.extents, ¬d.Continues e) :
    Canonical (t.absorbAfter e).1 ∧ 0 < (t.absorbAfter e).2.count ∧
      Apart (t.absorbAfter e).1 (t.absorbAfter e).2 ∧
      ∀ d ∈ (t.absorbAfter e).1.extents,
        ¬d.Continues (t.absorbAfter e).2 ∧ ¬(t.absorbAfter e).2.Continues d := by
  by_cases hexists : ∃ d ∈ t.extents, e.Continues d
  · obtain ⟨d, hd, hcontinues⟩ := hexists
    rw [absorbAfter_of_continues (h.startingAt?_of_continues hd hcontinues) hcontinues]
    refine ⟨h.erase _, Nat.add_pos_left he _, ?_, fun c hc => ⟨?_, ?_⟩⟩
    · exact (hapart.erase _).append (h.apart_erase hd) hcontinues (h.erase _).nonempty
    · exact hfirst c (List.mem_filter.1 hc).1
    · rw [Extent.append_continues_iff hcontinues]
      exact (h.not_continues_of_mem_erase hd hc).2
  · have hnone : ∀ d ∈ t.extents, ¬e.Continues d := fun d hd hbad => hexists ⟨d, hd, hbad⟩
    rw [absorbAfter_of_not_continues hnone]
    exact ⟨h, he, hapart, fun d hd => ⟨hfirst d hd, hnone d hd⟩⟩

end Absorbing

/-! ### Putting an extent in its place -/

theorem put_spec {t : ExtentTable} (h : Canonical t) {e : Extent} (he : 0 < e.count)
    (hapart : Apart t e) (hends : ∀ d ∈ t.extents, ¬d.Continues e ∧ ¬e.Continues d) :
    Canonical (t.put e) := by
  have helimit : e.fileLimit = e.fileTrack + e.count := rfl
  refine ⟨?_, (h.ascending.put he).nonempty⟩
  rw [put, List.pairwise_append, List.pairwise_cons]
  refine ⟨h.ordered.sublist List.filter_sublist, ⟨?_, h.ordered.sublist List.filter_sublist⟩, ?_⟩
  · intro d hd
    obtain ⟨hd, hlt⟩ := List.mem_filter.1 hd
    have hlt := of_decide_eq_true hlt
    have hlimit : d.fileLimit = d.fileTrack + d.count := rfl
    have := hapart d hd
    exact ⟨by omega, (hends d hd).2⟩
  · intro c hc d hd
    obtain ⟨hcin, hclt⟩ := List.mem_filter.1 hc
    have hclt := of_decide_eq_true hclt
    have hclimit : c.fileLimit = c.fileTrack + c.count := rfl
    have hcapart := hapart c hcin
    rcases List.mem_cons.1 hd with rfl | hd
    · exact ⟨by omega, (hends c hcin).1⟩
    · obtain ⟨hd, hdlt⟩ := List.mem_filter.1 hd
      have hdlt := of_decide_eq_true hdlt
      rcases h.cases_of_mem hcin hd with rfl | hcd | ⟨hle, -⟩
      · omega
      · exact hcd
      · have hdlimit : d.fileLimit = d.fileTrack + d.count := rfl
        omega

/-- **Adding tracks that are not in a table** keeps its form. -/
theorem Canonical.insert {t : ExtentTable} (h : Canonical t) {e : Extent} (he : 0 < e.count)
    (hapart : Apart t e) : Canonical (t.insert e) := by
  obtain ⟨hc₁, he₁, hapart₁, hfirst⟩ := absorbBefore_spec h he hapart
  rw [ExtentTable.insert, if_neg (Nat.ne_of_gt he)]
  generalize t.absorbBefore e = first at *
  obtain ⟨t₁, e₁⟩ := first
  obtain ⟨hc₂, he₂, hapart₂, hends⟩ := absorbAfter_spec hc₁ he₁ hapart₁ hfirst
  dsimp only at *
  generalize t₁.absorbAfter e₁ = second at *
  obtain ⟨t₂, e₂⟩ := second
  exact put_spec hc₂ he₂ hapart₂ hends

/-! ### Building a table -/

/-- An extent that lies behind all others and continues none is appended. -/
theorem insert_of_behind {t : ExtentTable} {e : Extent} (he : 0 < e.count)
    (hpos : ∀ d ∈ t.extents, 0 < d.count)
    (hbehind : ∀ d ∈ t.extents, d.fileLimit ≤ e.fileTrack ∧ ¬d.Continues e) :
    t.insert e = ⟨t.extents ++ [e]⟩ := by
  have hlt : ∀ d ∈ t.extents, d.fileTrack < e.fileTrack := by
    intro d hd
    have hlimit : d.fileLimit = d.fileTrack + d.count := rfl
    have := hpos d hd
    have := (hbehind d hd).1
    omega
  have hbefore : t.absorbBefore e = (t, e) :=
    absorbBefore_of_not_continues fun d hd => (hbehind d hd).2
  have hafter : t.absorbAfter e = (t, e) := by
    refine absorbAfter_of_not_continues fun d hd hbad => ?_
    have hmeets : e.fileLimit = d.fileTrack := hbad.1
    have helimit : e.fileLimit = e.fileTrack + e.count := rfl
    have := hlt d hd
    omega
  have hall : t.extents.filter (fun d => d.fileTrack < e.fileTrack) = t.extents :=
    List.filter_eq_self.2 fun d hd => decide_eq_true (hlt d hd)
  have hnone : t.extents.filter (fun d => e.fileTrack < d.fileTrack) = [] := by
    refine List.filter_eq_nil_iff.2 ?_
    intro d hd hbad
    exact Nat.lt_asymm (hlt d hd) (of_decide_eq_true hbad)
  unfold insert
  rw [if_neg (Nat.ne_of_gt he), hbefore]
  dsimp only
  rw [hafter]
  dsimp only
  rw [put, hall, hnone]

/-- **A table is built from its own extents.** -/
theorem foldl_insert {t : ExtentTable} (h : Canonical t) :
    t.extents.foldl ExtentTable.insert {} = t := by
  have hgoes : ∀ (es before : List Extent), Canonical ⟨before ++ es⟩ →
      es.foldl ExtentTable.insert ⟨before⟩ = ⟨before ++ es⟩ := by
    intro es
    induction es with
    | nil =>
        intro before _
        rw [List.foldl_nil, List.append_nil]
    | cons e es ih =>
        intro before hbefore
        have hsplit : before ++ e :: es = (before ++ [e]) ++ es := by simp
        have hbehind := (List.pairwise_append.1 hbefore.ordered).2.2
        have hinsert : ExtentTable.insert ⟨before⟩ e = ⟨before ++ [e]⟩ := by
          refine insert_of_behind (hbefore.nonempty e ?_) ?_ ?_
          · exact List.mem_append_right _ List.mem_cons_self
          · intro d hd
            exact hbefore.nonempty d (List.mem_append_left _ hd)
          · intro d hd
            exact hbehind d hd e List.mem_cons_self
        rw [List.foldl_cons, hinsert, hsplit]
        rw [hsplit] at hbefore
        exact ih _ hbefore
  exact hgoes t.extents [] h

theorem length_erase_le (t : ExtentTable) (track : Nat) :
    (t.erase track).extents.length ≤ t.extents.length := List.length_filter_le _ _

/-- An extent is put between those that begin before it and those that begin after it. -/
theorem length_put_le (t : ExtentTable) (e : Extent) :
    (t.put e).extents.length ≤ t.extents.length + 1 := by
  have hsplit := List.length_eq_length_filter_add (l := t.extents) fun d => d.fileTrack < e.fileTrack
  have hafter : (t.extents.filter fun d => e.fileTrack < d.fileTrack).length ≤
      (t.extents.filter fun d => !decide (d.fileTrack < e.fileTrack)).length := by
    refine (List.monotone_filter_right t.extents fun d hd => ?_).length_le
    simpa using Nat.le_of_lt (of_decide_eq_true hd)
  rw [put, List.length_append, List.length_cons]
  omega

theorem length_absorbBefore_le (t : ExtentTable) (e : Extent) :
    (t.absorbBefore e).1.extents.length ≤ t.extents.length := by
  rcases t.absorbBefore_cases e with heq | ⟨d, -, -, heq⟩
  · exact Nat.le_of_eq (by rw [heq])
  · rw [heq]
    exact length_erase_le t _

theorem length_absorbAfter_le (t : ExtentTable) (e : Extent) :
    (t.absorbAfter e).1.extents.length ≤ t.extents.length := by
  rcases t.absorbAfter_cases e with heq | ⟨d, -, -, heq⟩
  · exact Nat.le_of_eq (by rw [heq])
  · rw [heq]
    exact length_erase_le t _

/-- Adding an extent makes a table longer by at most one. -/
theorem length_insert_le (t : ExtentTable) (e : Extent) :
    (t.insert e).extents.length ≤ t.extents.length + 1 := by
  rw [insert]
  split
  · exact Nat.le_succ _
  · refine Nat.le_trans (length_put_le _ _) (Nat.succ_le_succ ?_)
    exact Nat.le_trans (length_absorbAfter_le _ _) (length_absorbBefore_le t e)

theorem length_foldl_insert_le (es : List Extent) (t : ExtentTable) :
    (es.foldl ExtentTable.insert t).extents.length ≤ t.extents.length + es.length := by
  induction es generalizing t with
  | nil => exact Nat.le_refl _
  | cons e es ih =>
      rw [List.foldl_cons, List.length_cons]
      have := ih (t.insert e)
      have := length_insert_le t e
      omega

/-- Adding consecutive file tracks that are not in a table keeps its form. -/
theorem Canonical.insertRegions {t : ExtentTable} (h : Canonical t) (first : Nat)
    {regions : List Region} (hpos : ∀ r ∈ regions, 0 < r.count)
    (hout : ∀ track, first ≤ track → track < first + (tracksIn regions).length →
      track ∉ t.fileTracks) : Canonical (t.insertRegions first regions) := by
  induction regions generalizing t first with
  | nil => exact h
  | cons r regions ih =>
      have hr := hpos r List.mem_cons_self
      rw [tracksIn_cons, List.length_append, Region.length_tracks] at hout
      have hapart : Apart t ⟨first, r.first, r.count⟩ :=
        apart_of_notMem h hr fun track hle hlt => hout track hle (by
          unfold Extent.fileLimit at hlt
          dsimp only at hlt
          omega)
      obtain ⟨-, hfile, -, -⟩ := (hapart.admits h hr).insert
      refine ih (h.insert hr hapart) (first + r.count)
        (fun other hother => hpos other (List.mem_cons_of_mem _ hother)) ?_
      intro track hle hlt hin
      rcases List.mem_append.1 (hfile.mem_iff.1 hin) with hnew | hold
      · rw [Region.mem_tracks, Region.mem_iff] at hnew
        unfold Region.limit Extent.fileRegion at hnew
        dsimp only at hnew
        omega
      · exact hout track (by omega) (by omega) hold

/-! ### Gaps -/

/-- **The gaps of a region** hold no track of the table. -/
theorem Canonical.gaps {t : ExtentTable} (h : Canonical t) (r : Region) :
    ∀ track ∈ tracksIn (t.gaps r), track ∉ t.fileTracks := by
  rw [ExtentTable.gaps]
  generalize hstart : ((t.before? r.first).map Extent.fileTrack).getD r.first = start
  have hsub : Canonical ⟨t.extents.filter fun e => start ≤ e.fileTrack && e.fileTrack < r.limit⟩ :=
    ⟨h.ordered.sublist List.filter_sublist, fun e he => h.nonempty e (List.mem_filter.1 he).1⟩
  obtain ⟨-, htracks⟩ := hsub.ascending.gapsFrom r.first r.limit (by
    intro e he
    have hin := (List.mem_filter.1 he).2
    rw [Bool.and_eq_true, decide_eq_true_eq, decide_eq_true_eq] at hin
    exact hin.2)
  intro track htrack hin
  obtain ⟨hle, hlt, hnone⟩ := htracks track htrack
  obtain ⟨e, he, hefirst, helast⟩ := mem_fileTracks.1 hin
  have helimit : e.fileLimit = e.fileTrack + e.count := rfl
  -- an extent that holds the track begins neither past the region nor before the last one that
  -- begins before the region
  refine hnone e (List.mem_filter.2 ⟨he, ?_⟩) ⟨hefirst, helast⟩
  rw [Bool.and_eq_true, decide_eq_true_eq, decide_eq_true_eq]
  refine ⟨?_, by omega⟩
  subst hstart
  unfold before?
  cases hlast : (t.extents.filter fun d => d.fileTrack < r.first).getLast? with
  | none =>
      rw [List.getLast?_eq_none_iff, List.filter_eq_nil_iff] at hlast
      have := hlast e he
      simp only [decide_eq_true_eq] at this
      simpa using this
  | some d =>
      obtain ⟨before, hsplit⟩ := List.getLast?_eq_some_iff.1 hlast
      have hdin : d ∈ t.extents.filter fun d => d.fileTrack < r.first := by
        rw [hsplit]
        exact List.mem_append_right _ (List.mem_singleton_self d)
      obtain ⟨hd, hdlt⟩ := List.mem_filter.1 hdin
      have hdlt := of_decide_eq_true hdlt
      have hdlimit : d.fileLimit = d.fileTrack + d.count := rfl
      show d.fileTrack ≤ e.fileTrack
      rcases h.cases_of_mem he hd with rfl | ⟨hed, -⟩ | ⟨hde, -⟩
      · exact Nat.le_refl _
      · omega
      · omega

/-! ### Filling gaps -/

/-- **Filling gaps** that hold no track of a table keeps its form. -/
theorem Canonical.fill {space after : FreeSpace} {table table' : ExtentTable} {gaps : List Region}
    (hspace : space.Sound) (h : Canonical table) (hnodup : (tracksIn gaps).Nodup)
    (hout : ∀ track ∈ tracksIn gaps, track ∉ table.fileTracks)
    (hfill : Catalog.fill space table gaps = (none, after, table')) : Canonical table' := by
  induction gaps generalizing space table with
  | nil =>
      cases hfill
      exact h
  | cons gap gaps ih =>
      rw [Catalog.fill] at hfill
      rw [tracksIn_cons] at hnodup hout
      obtain ⟨-, hrest, hapart⟩ := List.nodup_append.1 hnodup
      cases hallocate : space.allocate gap.count with
      | none =>
          rw [hallocate] at hfill
          cases hfill
      | some result =>
          obtain ⟨regions, between⟩ := result
          rw [hallocate] at hfill
          obtain ⟨-, -, hpos, hlength, -⟩ := hspace.allocate_spec hallocate
          have hclear : ∀ track ∈ gap.tracks, track ∉ table.fileTracks := fun track htrack =>
            hout track (List.mem_append_left _ htrack)
          have hcanonical := h.insertRegions gap.first hpos (by
            intro track hle hlt
            rw [hlength] at hlt
            exact hclear track (Region.mem_tracks.2 ⟨hle, hlt⟩))
          obtain ⟨⟨hsound, -⟩, -, -, hfile, -⟩ := Catalog.fill_gap hspace h.ascending
            (fun track htrack hin => hclear track htrack (h.ascending.starts_subset track hin))
            hallocate
          refine ih hsound hcanonical hrest ?_ hfill
          -- the other gaps have no track of this one, and none of the table
          intro track htrack hin
          rcases List.mem_append.1 (hfile.mem_iff.1 hin) with hnew | hold
          · exact hapart _ hnew _ htrack rfl
          · exact hout track (List.mem_append_right _ htrack) hold

end ExtentTable

end FileDirectory
