/-
**An allocation takes as few regions as it can.**

Space is taken from one free region if one is large enough, and a region of exactly the wanted size is
used whole.  Otherwise it is gathered from the largest regions.  Runs of free tracks, however they are
cut, lie in no more free regions than there are runs, and no free regions have more tracks than as many
of the largest; so fewer runs than are gathered do not have the tracks that are wanted.

Main definitions:

* `FileDirectory.FreeSpace.Supplies` — runs of free tracks that have as many tracks as are wanted.

Main results:

* `FileDirectory.sum_le_sum_take` — of numbers in descending order the first have the greatest sum;
* `FileDirectory.Separated.exists_hosts` — runs of tracks lie in no more regions than there are runs;
* `FileDirectory.FreeSpace.length_gather_le_of_le_sum` — as many regions are gathered as are needed;
* `FileDirectory.FreeSpace.Sound.isLeast_choose` — an allocation takes the least number of runs;
* `FileDirectory.FreeSpace.fewest_of_reached` — so it does whatever moves have been made before.
-/

import FileDirectory.Proofs.Pack.Moves
import Mathlib.Algebra.BigOperators.Group.List.Basic
import Mathlib.Algebra.GroupWithZero.Nat
import Mathlib.Algebra.Order.BigOperators.Group.List
import Mathlib.Algebra.Order.Group.Nat
import Mathlib.Order.Bounds.Defs

set_option autoImplicit false

namespace FileDirectory

/-! ### The greatest sums -/

/-- Of numbers none of which is greater than another one, the first ones have no greater sum than when
that one is put before them. -/
theorem sum_take_le_sum_take_cons {l : List Nat} {a : Nat} (h : ∀ b ∈ l, b ≤ a) (n : Nat) :
    (l.take n).sum ≤ ((a :: l).take n).sum := by
  cases n with
  | zero => simp
  | succ n =>
      rw [List.take_add_one, List.take_succ_cons, List.sum_append, List.sum_cons, Nat.add_comm]
      refine Nat.add_le_add_right ?_ _
      cases hnext : l[n]? with
      | none => simp
      | some b => simpa using h b (List.mem_of_getElem? hnext)

/-- **Of numbers in descending order the first have the greatest sum**, whichever others are chosen. -/
theorem sum_le_sum_take {l t : List Nat} (hsorted : l.Pairwise fun a b => b ≤ a) (h : t.Sublist l) :
    t.sum ≤ (l.take t.length).sum := by
  induction h with
  | slnil => exact Nat.le_refl _
  | @cons t l a h ih =>
      -- the greatest number is passed over, so the others are no better than with it
      obtain ⟨hle, htail⟩ := List.pairwise_cons.1 hsorted
      exact Nat.le_trans (ih htail) (sum_take_le_sum_take_cons hle _)
  | @cons_cons t l a h ih =>
      obtain ⟨-, htail⟩ := List.pairwise_cons.1 hsorted
      simpa using ih htail

/-- The order in which numbers are chosen does not matter, and more of them have no smaller sum. -/
theorem sum_le_sum_take_of_le {l t : List Nat} (hsorted : l.Pairwise fun a b => b ≤ a)
    (h : t.Subperm l) {n : Nat} (hn : t.length ≤ n) : t.sum ≤ (l.take n).sum := by
  obtain ⟨u, hu, hsub⟩ := h
  have hprefix : (l.take u.length).Sublist (l.take n) :=
    List.take_sublist_take_left (hu.length_eq ▸ hn)
  calc t.sum = u.sum := hu.sum_eq.symm
    _ ≤ (l.take u.length).sum := sum_le_sum_take hsorted hsub
    _ ≤ (l.take n).sum := hprefix.sum_le_sum (by simp)

/-! ### Runs inside regions that stand apart -/

/-- **Runs of tracks lie in no more regions than there are runs**, since each lies in one of them. -/
theorem Separated.exists_hosts {regions : List Region} (h : Separated regions) {runs : List Region}
    (hruns : ∀ r ∈ runs, ∀ track ∈ r, track ∈ tracksIn regions) :
    ∃ hosts : List Region, hosts.Nodup ∧ (∀ f ∈ hosts, f ∈ regions) ∧
      hosts.length ≤ runs.length ∧ ∀ track ∈ tracksIn runs, track ∈ tracksIn hosts := by
  induction runs with
  | nil => exact ⟨[], List.nodup_nil, by simp, Nat.le_refl _, by simp⟩
  | cons r runs ih =>
      obtain ⟨hrun, hrest⟩ := List.forall_mem_cons.1 hruns
      obtain ⟨hosts, hnodup, hmem, hlength, hcovers⟩ := ih hrest
      -- the hosts of the other runs do if they have the tracks of this one already
      by_cases hdone : ∀ track ∈ r, track ∈ tracksIn hosts
      · refine ⟨hosts, hnodup, hmem, Nat.le_succ_of_le hlength, fun track htrack => ?_⟩
        rw [tracksIn_cons, List.mem_append, Region.mem_tracks] at htrack
        exact htrack.elim (hdone track) (hcovers track)
      · obtain ⟨track, htrack, hout⟩ : ∃ track ∈ r, track ∉ tracksIn hosts := by
          simpa using hdone
        obtain ⟨f, hf, hfirst, hlimit⟩ :=
          h.exists_inside (Region.count_pos_of_mem htrack) hrun
        have hinside : ∀ track ∈ r, track ∈ f := fun _ => Region.mem_of_inside hfirst hlimit
        have hnew : f ∉ hosts := fun hold =>
          hout (mem_tracksIn.2 ⟨f, hold, hinside track htrack⟩)
        refine ⟨f :: hosts, List.nodup_cons.2 ⟨hnew, hnodup⟩, List.forall_mem_cons.2 ⟨hf, hmem⟩,
          Nat.succ_le_succ hlength, fun track htrack => ?_⟩
        rw [tracksIn_cons, List.mem_append, Region.mem_tracks] at htrack ⊢
        exact htrack.imp (hinside track) (hcovers track)

namespace FreeSpace

/-! ### Gathering -/

/-- **No more regions are gathered than are needed**: if the first of them have the wanted tracks, no
other one is taken from. -/
theorem length_gather_le_of_le_sum {regions : List Region} {wanted n : Nat}
    (h : wanted ≤ ((regions.map Region.count).take n).sum) : (gather wanted regions).length ≤ n := by
  induction regions generalizing wanted n with
  | nil => exact Nat.zero_le _
  | cons f fs ih =>
      rw [gather]
      by_cases hzero : wanted = 0
      · rw [if_pos hzero]
        exact Nat.zero_le _
      · cases n with
        | zero => exact absurd (Nat.le_zero.1 h) hzero
        | succ n =>
            rw [List.map_cons, List.take_succ_cons, List.sum_cons] at h
            rw [if_neg hzero, List.length_cons]
            exact Nat.succ_le_succ (ih (by omega))

theorem gathersBefore_iff {f g : Region} :
    gathersBefore f g = true ↔ g.count < f.count ∨ f.count = g.count ∧ f.first ≤ g.first := by
  rw [gathersBefore, Bool.or_eq_true, Bool.and_eq_true, decide_eq_true_eq, decide_eq_true_eq,
    decide_eq_true_eq]

/-- Space is gathered from larger regions before smaller ones. -/
theorem pairwise_gathersBefore (regions : List Region) :
    (regions.mergeSort gathersBefore).Pairwise fun f g => gathersBefore f g = true := by
  refine List.pairwise_mergeSort (fun f g r hfg hgr => ?_) (fun f g => ?_) regions
  · rw [gathersBefore_iff] at *
    omega
  · rw [Bool.or_eq_true, gathersBefore_iff, gathersBefore_iff]
    omega

/-- So the numbers of their tracks descend. -/
theorem pairwise_counts (regions : List Region) :
    ((regions.mergeSort gathersBefore).map Region.count).Pairwise fun m n => n ≤ m := by
  refine List.pairwise_map.2 ((pairwise_gathersBefore regions).imp fun {f g} hfg => ?_)
  rw [gathersBefore_iff] at hfg
  omega

/-! ### Choosing one region -/

section Single

variable {s : FreeSpace} {count : Nat}

/-- One region is chosen if one is large enough. -/
theorem exists_single {f : Region} (hf : f ∈ s.regions) (hle : count ≤ f.count) :
    ∃ g, s.single count = some g := by
  cases hsingle : s.single count with
  | some g => exact ⟨g, rfl⟩
  | none =>
      unfold single at hsingle
      rcases hfind : s.regions.find? fun g => decide (g.count = count) with _ | g
      · rw [hfind] at hsingle
        have hne := List.find?_eq_none.1 hfind f hf
        have hlt := List.find?_eq_none.1 hsingle f hf
        rw [decide_eq_true_eq] at hne hlt
        omega
      · rw [hfind] at hsingle
        cases hsingle

/-- Of free regions of exactly the wanted size the lowest is chosen. -/
theorem Sound.single_of_exact (h : Sound s) (hexact : ∃ f ∈ s.regions, f.count = count) :
    ∃ f ∈ s.regions, f.count = count ∧ s.single count = some f ∧
      ∀ g ∈ s.regions, g.count = count → f.first ≤ g.first := by
  obtain ⟨g, hg, hcount⟩ := hexact
  rcases hfind : s.regions.find? fun f => decide (f.count = count) with _ | f
  · exact absurd (decide_eq_true hcount) (List.find?_eq_none.1 hfind g hg)
  · obtain ⟨hf, before, behind, hsplit, hbefore⟩ := List.find?_eq_some_iff_append.1 hfind
    refine ⟨f, List.mem_of_find?_eq_some hfind, of_decide_eq_true hf, by rw [single, hfind]; rfl, ?_⟩
    intro other hother heq
    -- it is not one of those before the chosen region, and the others stand higher
    rw [hsplit, List.mem_append, List.mem_cons] at hother
    rcases hother with hother | rfl | hother
    · simpa [heq] using hbefore other hother
    · exact Nat.le_refl _
    · have hapart := h.separated.apart
      rw [hsplit] at hapart
      have hlt := (List.pairwise_cons.1 (List.pairwise_append.1 hapart).2.1).1 other hother
      rw [Region.limit] at hlt
      omega

theorem choose_of_single {f : Region} (h : s.single count = some f) :
    s.choose count = [⟨f.first, count⟩] := by
  rw [choose, h]

theorem choose_of_none (h : s.single count = none) :
    s.choose count = (gather count (s.regions.mergeSort gathersBefore)).mergeSort
      fun f g => f.first ≤ g.first := by
  rw [choose, h]

end Single

/-! ### The least number of runs -/

/-- Runs of free tracks, no two of which have a track in common, that have as many tracks as are
wanted. -/
structure Supplies (s : FreeSpace) (count : Nat) (runs : List Region) : Prop where
  apart : runs.Pairwise fun f g => ∀ track ∈ f, track ∉ g
  free : ∀ r ∈ runs, ∀ track ∈ r, track ∈ s.tracks
  total : (runs.map Region.count).sum = count

theorem Hands.supplies {s t : FreeSpace} {count : Nat} {taken : List Region}
    (h : Hands s count taken t) : Supplies s count taken := by
  refine ⟨h.ascending.imp fun {f g} hle track hf hg => ?_, h.free, h.total⟩
  rw [Region.mem_iff] at hf hg
  omega

section Least

variable {s : FreeSpace} {count : Nat} {runs : List Region}

theorem Supplies.nodup (h : Supplies s count runs) : (tracksIn runs).Nodup := by
  refine List.nodup_flatMap.2 ⟨fun r _ => r.nodup_tracks, h.apart.imp ?_⟩
  intro f g hapart track hf hg
  exact hapart track (Region.mem_tracks.1 hf) (Region.mem_tracks.1 hg)

theorem Supplies.length_tracksIn (h : Supplies s count runs) : (tracksIn runs).length = count := by
  rw [FileDirectory.length_tracksIn, ← List.sum_eq_foldr, h.total]

/-- **As many of the largest free regions as there are runs have the wanted tracks.** -/
theorem Supplies.le_sum_take (h : Supplies s count runs) (hsound : Sound s) :
    count ≤ (((s.regions.mergeSort gathersBefore).map Region.count).take runs.length).sum := by
  have hinside : ∀ r ∈ runs, ∀ track ∈ r, track ∈ tracksIn s.regions := fun r hr track htrack =>
    mem_tracks.1 (h.free r hr track htrack)
  obtain ⟨hosts, hnodup, hmem, hlength, hcovers⟩ := hsound.separated.exists_hosts hinside
  obtain ⟨order, horder, hsub⟩ : hosts.Subperm (s.regions.mergeSort gathersBefore) :=
    (List.subperm_of_subset hnodup hmem).trans (List.mergeSort_perm _ _).symm.subperm
  have hcounts : (hosts.map Region.count).length ≤ runs.length := by
    rw [List.length_map]
    exact hlength
  calc count = (tracksIn runs).length := h.length_tracksIn.symm
    _ ≤ (tracksIn hosts).length := (List.subperm_of_subset h.nodup hcovers).length_le
    _ = (hosts.map Region.count).sum := by
        rw [FileDirectory.length_tracksIn, ← List.sum_eq_foldr]
    _ ≤ _ := sum_le_sum_take_of_le (pairwise_counts s.regions)
        ⟨order.map Region.count, horder.map _, hsub.map _⟩ hcounts

/-- Nothing that supplies the wanted tracks does so with fewer runs than are taken. -/
theorem Supplies.length_choose_le (h : Supplies s count runs) (hsound : Sound s)
    (hpos : 0 < count) : (s.choose count).length ≤ runs.length := by
  cases hsingle : s.single count with
  | some f =>
      rw [choose_of_single hsingle]
      refine List.length_pos_iff.2 ?_
      rintro rfl
      exact absurd h.total (Nat.ne_of_lt hpos)
  | none =>
      rw [choose_of_none hsingle, List.length_mergeSort]
      exact length_gather_le_of_le_sum (h.le_sum_take hsound)

end Least

/-- **An allocation takes the least number of runs** of free tracks that supply what is wanted. -/
theorem Sound.isLeast_choose {s : FreeSpace} (h : Sound s) {count : Nat} (hpos : 0 < count)
    (hfree : count ≤ s.free) :
    IsLeast {n | ∃ runs, s.Supplies count runs ∧ runs.length = n} (s.choose count).length := by
  refine ⟨⟨s.choose count, (h.hands (allocate_of_le hpos hfree)).supplies, rfl⟩, ?_⟩
  rintro n ⟨runs, hruns, rfl⟩
  exact hruns.length_choose_le h hpos

/-- **An allocation takes as few regions as it can, whatever moves have been made before.**  It takes
one region if a free region has enough tracks, and in general as few as there are runs of free tracks
that supply what is wanted; if free regions have exactly the wanted number of tracks, the lowest of
them is taken whole. -/
theorem fewest_of_reached {s : FreeSpace} (h : s.Reached) {count : Nat} (hpos : 0 < count)
    (hfree : count ≤ s.free) :
    ∃ taken t, s.allocate count = some (taken, t) ∧
      ((∃ f ∈ s.regions, count ≤ f.count) → taken.length = 1) ∧
      IsLeast {n | ∃ runs, s.Supplies count runs ∧ runs.length = n} taken.length ∧
      ((∃ f ∈ s.regions, f.count = count) →
        ∃ f ∈ s.regions, f.count = count ∧
          (∀ g ∈ s.regions, g.count = count → f.first ≤ g.first) ∧ taken = [f]) := by
  refine ⟨s.choose count, (s.choose count).foldl take s, ?_, ?_, h.sound.isLeast_choose hpos hfree,
    ?_⟩
  · rw [allocate, if_neg (Nat.not_lt.2 hfree), if_neg (Nat.ne_of_gt hpos)]
  · rintro ⟨f, hf, hle⟩
    obtain ⟨g, hg⟩ := exists_single hf hle
    rw [choose_of_single hg]
    rfl
  · intro hexact
    obtain ⟨f, hf, hcount, hsingle, hlowest⟩ := h.sound.single_of_exact hexact
    refine ⟨f, hf, hcount, hlowest, ?_⟩
    rw [choose_of_single hsingle, ← hcount]

/-- Of 30 tracks 25 are left, in regions of 5, 4 and 16 tracks; so 20 tracks take two regions. -/
theorem fewest_of_reached_scattered :
    let s := (ofCapacity 30).after [.claim ⟨5, 3⟩, .claim ⟨12, 2⟩]
    s.Reached ∧ 0 < 20 ∧ 20 ≤ s.free ∧
      ∃ taken t, s.allocate 20 = some (taken, t) ∧ taken = [⟨0, 4⟩, ⟨14, 16⟩] ∧
        IsLeast {n | ∃ runs, s.Supplies 20 runs ∧ runs.length = n} 2 := by
  intro s
  have hreached : s.Reached := ⟨30, _, rfl⟩
  obtain ⟨taken, t, ht, -, hleast, -⟩ :=
    fewest_of_reached hreached (by decide : 0 < 20) (by decide)
  have hregions : s.regions = [⟨0, 5⟩, ⟨8, 4⟩, ⟨14, 16⟩] := by decide
  have hchoose : s.choose 20 = [⟨0, 4⟩, ⟨14, 16⟩] := by
    simp [choose, single, hregions, List.mergeSort, gathersBefore, gather]
  have hallocate := ht
  rw [allocate_of_le (by decide) (by decide), Option.some.injEq] at hallocate
  obtain rfl : taken = [⟨0, 4⟩, ⟨14, 16⟩] := (congrArg Prod.fst hallocate).symm.trans hchoose
  exact ⟨hreached, by decide, by decide, _, t, ht, rfl, hleast⟩

end FreeSpace

end FileDirectory
