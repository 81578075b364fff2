/-
**Free space is a set of tracks.**

Whatever is allocated, claimed and given back, and in whatever order, the free regions are told by the
tracks that are free, and every move does to this set what it says: an allocation takes as many tracks
as are asked for, a claim takes the tracks of a region if all are free, and a region is taken back if
none of its tracks is.  What was handed out and not given back is the rest of the pack; so when it is
given back, in any order, the whole pack is free again.

Main definitions:

* `FileDirectory.FreeSpace.Move`, `FileDirectory.FreeSpace.after` — what is done to free space, and
  what comes of it;
* `FileDirectory.FreeSpace.outstanding` — the regions that were handed out and not given back;
* `FileDirectory.FreeSpace.Reached` — free space that comes of moves on a whole pack;
* `FileDirectory.FreeSpace.tracks` — the set of free tracks;
* `FileDirectory.FreeSpace.Refines` — what allocating, claiming and giving back do to this set.

Main results:

* `FileDirectory.FreeSpace.Sound.refines` — sound free space is a set of tracks;
* `FileDirectory.FreeSpace.Shared.move` — free tracks and outstanding ones remain the whole pack;
* `FileDirectory.FreeSpace.refines_after` — so it is after all moves from a whole pack.
-/

import FileDirectory.Proofs.Catalog.Divided
import Mathlib.Algebra.GroupWithZero.Nat
import Mathlib.Data.Finset.Card

set_option autoImplicit false

namespace FileDirectory

/-! ### What is left of a region -/

/-- What is left of a region when the tracks of another one are given back. -/
def Region.without (f r : Region) : List Region :=
  between f.first (min f.limit r.first) ++ between (max f.first r.limit) f.limit

theorem Region.mem_tracksIn_without {f r : Region} {track : Nat} :
    track ∈ tracksIn (f.without r) ↔ track ∈ f ∧ track ∉ r := by
  rw [without, tracksIn_append, List.mem_append, mem_tracksIn_between, mem_tracksIn_between, mem_iff,
    mem_iff]
  omega

theorem Region.nodup_tracksIn_without (f r : Region) : (tracksIn (f.without r)).Nodup := by
  rw [without, tracksIn_append]
  refine List.nodup_append.2 ⟨nodup_tracksIn_between _ _, nodup_tracksIn_between _ _, ?_⟩
  rintro track hin other hother rfl
  have hlimit : r.limit = r.first + r.count := rfl
  rw [mem_tracksIn_between] at hin hother
  omega

theorem Region.perm_without (f r : Region) :
    (tracksIn (f.without r)).Perm (f.tracks.filter fun track => track ∉ r) := by
  refine (List.perm_ext_iff_of_nodup (f.nodup_tracksIn_without r) (f.nodup_tracks.filter _)).2 ?_
  intro track
  rw [mem_tracksIn_without, List.mem_filter, mem_tracks, decide_eq_true_eq]

/-- Of several regions the tracks are left that the other one does not have. -/
theorem perm_flatMap_without (regions : List Region) (r : Region) :
    (tracksIn (regions.flatMap fun f => f.without r)).Perm
      ((tracksIn regions).filter fun track => track ∉ r) := by
  induction regions with
  | nil => exact List.Perm.refl _
  | cons f regions ih =>
      rw [List.flatMap_cons, tracksIn_append, tracksIn_cons, List.filter_append]
      exact (f.perm_without r).append ih

/-- Tracks that are all among those of several regions, together with those that are left, are the
tracks of the regions. -/
theorem perm_tracks_without {regions : List Region} (hnodup : (tracksIn regions).Nodup) {r : Region}
    (hsub : ∀ track ∈ r, track ∈ tracksIn regions) :
    (r.tracks ++ tracksIn (regions.flatMap fun f => f.without r)).Perm (tracksIn regions) := by
  have hsame : r.tracks.Perm ((tracksIn regions).filter fun track => track ∈ r) := by
    refine (List.perm_ext_iff_of_nodup r.nodup_tracks (hnodup.filter _)).2 fun track => ?_
    rw [Region.mem_tracks, List.mem_filter, decide_eq_true_eq]
    exact ⟨fun hin => ⟨hsub track hin, hin⟩, And.right⟩
  refine (hsame.append (perm_flatMap_without regions r)).trans ?_
  simpa using List.filter_append_perm (fun track => decide (track ∈ r)) (tracksIn regions)

namespace FreeSpace

/-! ### Moves -/

/-- What is done to free space. -/
inductive Move where
  /-- Takes a number of tracks. -/
  | allocate (count : Nat)
  /-- Takes the tracks of a region. -/
  | claim (r : Region)
  /-- Gives the tracks of a region back. -/
  | release (r : Region)
  deriving DecidableEq, Repr

/-- Free space after a move. -/
def move (s : FreeSpace) : Move → FreeSpace
  | .allocate count => ((s.allocate count).map Prod.snd).getD s
  | .claim r => (s.claim r).2
  | .release r => (s.release r).2

/-- Free space after moves, one after another. -/
def after (s : FreeSpace) (moves : List Move) : FreeSpace := moves.foldl move s

/-- The regions that are held after a move, where the given ones were held before. -/
def hold (s : FreeSpace) (held : List Region) : Move → List Region
  | .allocate count => held ++ ((s.allocate count).map Prod.fst).getD []
  | .claim r => if (s.claim r).1 then held ++ [r] else held
  | .release r => if (s.release r).1 then held.flatMap fun f => f.without r else held

/-- The regions that are held after moves, where the given ones were held before: they were handed out
and have not been given back since. -/
def outstanding (s : FreeSpace) (held : List Region) : List Move → List Region
  | [] => held
  | m :: moves => outstanding (s.move m) (s.hold held m) moves

@[simp] theorem after_nil (s : FreeSpace) : s.after [] = s := rfl

@[simp] theorem after_cons (s : FreeSpace) (m : Move) (moves : List Move) :
    s.after (m :: moves) = (s.move m).after moves := rfl

@[simp] theorem outstanding_nil (s : FreeSpace) (held : List Region) :
    s.outstanding held [] = held := rfl

@[simp] theorem outstanding_cons (s : FreeSpace) (held : List Region) (m : Move) (moves : List Move) :
    s.outstanding held (m :: moves) = (s.move m).outstanding (s.hold held m) moves := rfl

/-! ### The set of free tracks -/

/-- The set of free tracks. -/
def tracks (s : FreeSpace) : Finset Nat := (tracksIn s.regions).toFinset

@[simp] theorem mem_tracks {s : FreeSpace} {track : Nat} :
    track ∈ s.tracks ↔ track ∈ tracksIn s.regions := List.mem_toFinset

theorem Sound.card_tracks {s : FreeSpace} (h : Sound s) : s.tracks.card = s.free := by
  rw [tracks, List.toFinset_card_of_nodup h.separated.nodup_tracksIn, h.free_eq]

/-- **Sound free space is told by the set of its tracks.** -/
theorem Sound.eq_of_tracks {s t : FreeSpace} (hs : Sound s) (ht : Sound t)
    (hcapacity : s.capacity = t.capacity) (h : s.tracks = t.tracks) : s = t := by
  refine hs.eq_of_perm ht hcapacity ?_
  refine (List.perm_ext_iff_of_nodup hs.separated.nodup_tracksIn ht.separated.nodup_tracksIn).2 ?_
  intro track
  rw [← mem_tracks, ← mem_tracks, h]

/-- What is left when tracks were taken that were all free. -/
theorem tracks_of_perm {s t : FreeSpace} {taken : List Nat} (h : Sound s)
    (hperm : (tracksIn s.regions).Perm (taken ++ tracksIn t.regions)) :
    t.tracks = s.tracks \ taken.toFinset := by
  have hnodup := hperm.nodup_iff.1 h.separated.nodup_tracksIn
  ext track
  rw [Finset.mem_sdiff, mem_tracks, mem_tracks, List.mem_toFinset, hperm.mem_iff, List.mem_append]
  constructor
  · intro hin
    exact ⟨Or.inr hin, fun htaken => List.disjoint_of_nodup_append hnodup htaken hin⟩
  · rintro ⟨htaken | hin, hout⟩
    · exact absurd htaken hout
    · exact hin

/-! ### Claiming and giving back -/

section Asking

variable {s : FreeSpace} {r : Region}

theorem claim_of_false (h : (s.claim r).1 = false) : (s.claim r).2 = s := by
  unfold claim at h ⊢
  split at h
  · cases h
  · split at h
    · cases h
    · simp [*]

theorem release_of_false (h : (s.release r).1 = false) : (s.release r).2 = s := by
  unfold release at h ⊢
  split at h
  · cases h
  · split at h
    · simp [*]
    · split at h
      · simp [*]
      · cases h

/-- **A region is claimed exactly if all its tracks are free.** -/
theorem Sound.claim_iff (h : Sound s) :
    (s.claim r).1 = true ↔ ∀ track ∈ r, track ∈ tracksIn s.regions := by
  constructor
  · intro hclaim
    exact subset_of_claim (Prod.ext hclaim rfl)
  · intro hsub
    obtain ⟨t, ht, -⟩ := h.claim_of_subset hsub
    rw [ht]

/-- Tracks that are given back belong to the pack, and none of them was free. -/
theorem of_release (hrelease : (s.release r).1 = true) :
    ∀ track ∈ r, track < s.capacity ∧ track ∉ tracksIn s.regions := by
  intro track htrack
  rw [Region.mem_iff, Region.limit] at htrack
  have hlimit : r.limit = r.first + r.count := rfl
  unfold release at hrelease
  rw [if_neg (by omega)] at hrelease
  split at hrelease
  · cases hrelease
  · rename_i hinside
    split at hrelease
    · cases hrelease
    · rename_i hapart
      refine ⟨by omega, fun hin => hapart ?_⟩
      obtain ⟨f, hf, hfirst, hlast⟩ := mem_tracksIn.1 hin
      refine List.any_eq_true.2 ⟨f, hf, ?_⟩
      rw [Bool.and_eq_true, decide_eq_true_eq, decide_eq_true_eq]
      omega

/-- **A region is taken back exactly if its tracks belong to the pack and none of them is free.** -/
theorem Sound.release_iff (h : Sound s) :
    (s.release r).1 = true ↔ ∀ track ∈ r, track < s.capacity ∧ track ∉ tracksIn s.regions := by
  refine ⟨of_release, fun hout => ?_⟩
  exact (h.release_spec (fun track htrack => (hout track htrack).1)
    fun track htrack => (hout track htrack).2).1

end Asking

/-! ### Allocating -/

/-- Regions that are sorted by their first tracks and have no track in common come one after
another. -/
theorem pairwise_limit_le {regions : List Region} (hpos : ∀ r ∈ regions, 0 < r.count)
    (hnodup : (tracksIn regions).Nodup) (hsorted : regions.Pairwise fun f g => f.first ≤ g.first) :
    regions.Pairwise fun f g => f.limit ≤ g.first := by
  have hdisjoint := (List.nodup_flatMap.1 hnodup).2
  refine (List.Pairwise.and_mem.1 (hdisjoint.and hsorted)).imp ?_
  rintro f g ⟨hf, hg, hapart, hle⟩
  by_contra hcross
  -- the first track of the later one would be in both
  have hin : g.first ∈ f := ⟨hle, Nat.lt_of_not_le hcross⟩
  have hself : g.first ∈ g := ⟨Nat.le_refl _, Nat.lt_add_of_pos_right (hpos g hg)⟩
  exact hapart (Region.mem_tracks.2 hin) (Region.mem_tracks.2 hself)

theorem allocate_of_le {s : FreeSpace} {count : Nat} (hpos : 0 < count) (hfree : count ≤ s.free) :
    s.allocate count = some (s.choose count, (s.choose count).foldl FreeSpace.take s) := by
  rw [allocate, if_neg (Nat.not_lt.2 hfree), if_neg (Nat.ne_of_gt hpos)]

/-- The regions that are taken are sorted by their first tracks. -/
theorem pairwise_choose (s : FreeSpace) (count : Nat) :
    (s.choose count).Pairwise fun f g => f.first ≤ g.first := by
  unfold choose
  cases s.single count with
  | some f => exact List.pairwise_singleton _ _
  | none =>
      refine (List.pairwise_mergeSort (fun a b c hab hbc => ?_) (fun a b => ?_) _).imp
        of_decide_eq_true
      · simp only [decide_eq_true_eq] at hab hbc ⊢
        omega
      · simp only [Bool.or_eq_true, decide_eq_true_eq]
        omega

/-- An allocation takes regions of free tracks, ascending and apart, that have as many tracks as are
asked for, and leaves the other free tracks. -/
structure Hands (s : FreeSpace) (count : Nat) (taken : List Region) (t : FreeSpace) : Prop where
  capacity : t.capacity = s.capacity
  nonempty : ∀ r ∈ taken, 0 < r.count
  ascending : taken.Pairwise fun f g => f.limit ≤ g.first
  total : (taken.map Region.count).sum = count
  free : ∀ r ∈ taken, ∀ track ∈ r, track ∈ s.tracks
  left : t.tracks = s.tracks \ (tracksIn taken).toFinset

theorem Sound.hands {s t : FreeSpace} (h : Sound s) {count : Nat} {taken : List Region}
    (hallocate : s.allocate count = some (taken, t)) : Hands s count taken t := by
  obtain ⟨-, hcapacity, hpos, hlength, hperm⟩ := h.allocate_spec hallocate
  have hnodup : (tracksIn taken).Nodup :=
    (List.nodup_append.1 (hperm.nodup_iff.1 h.separated.nodup_tracksIn)).1
  refine ⟨hcapacity, hpos, ?_, ?_, ?_, tracks_of_perm h hperm⟩
  · unfold allocate at hallocate
    split at hallocate
    · cases hallocate
    · split at hallocate
      · cases hallocate
        exact List.Pairwise.nil
      · cases hallocate
        exact pairwise_limit_le hpos hnodup (s.pairwise_choose count)
  · rw [← hlength, length_tracksIn, List.sum_eq_foldr]
  · intro r hr track htrack
    exact mem_tracks.2 (hperm.mem_iff.2 (List.mem_append_left _ (mem_tracksIn.2 ⟨r, hr, htrack⟩)))

/-! ### Free space as a set -/

/-- What allocating, claiming and giving back do to the set of free tracks: each says whether it is
done, does what it says to the set, and changes nothing if it is not done. -/
structure Refines (s : FreeSpace) : Prop where
  /-- The free regions stand in order and apart, inside the pack, and the number of free tracks is
  theirs. -/
  sound : s.Sound
  card : s.tracks.card = s.free
  allocate_none : ∀ count, s.allocate count = none ↔ s.tracks.card < count
  allocate_some : ∀ count taken t, s.allocate count = some (taken, t) → s.Hands count taken t
  claim_iff : ∀ r, (s.claim r).1 = true ↔ r.count = 0 ∨ ∀ track ∈ r, track ∈ s.tracks
  claim_true : ∀ r, (s.claim r).1 = true →
    (s.claim r).2.capacity = s.capacity ∧ (s.claim r).2.tracks = s.tracks \ r.tracks.toFinset
  claim_false : ∀ r, (s.claim r).1 = false → (s.claim r).2 = s
  release_iff : ∀ r, (s.release r).1 = true ↔
    r.count = 0 ∨ ∀ track ∈ r, track < s.capacity ∧ track ∉ s.tracks
  release_true : ∀ r, (s.release r).1 = true →
    (s.release r).2.capacity = s.capacity ∧ (s.release r).2.tracks = s.tracks ∪ r.tracks.toFinset
  release_false : ∀ r, (s.release r).1 = false → (s.release r).2 = s

/-- Every track of an empty region has every property. -/
theorem forall_mem_of_count_eq_zero {r : Region} {p : Nat → Prop} (h : r.count = 0) :
    ∀ track ∈ r, p track := fun _ htrack => absurd h (Region.count_pos_of_mem htrack).ne'

/-- **Sound free space is a set of tracks.** -/
theorem Sound.refines {s : FreeSpace} (h : Sound s) : Refines s where
  sound := h
  card := h.card_tracks
  allocate_none := fun count => by rw [h.card_tracks, allocate_eq_none_iff]
  allocate_some := fun count taken t => h.hands
  claim_iff := by
    intro r
    simp only [h.claim_iff, mem_tracks]
    exact ⟨Or.inr, fun hr => hr.elim forall_mem_of_count_eq_zero id⟩
  claim_true := by
    intro r hclaim
    obtain ⟨t, ht, -, hcapacity, hperm⟩ := h.claim_of_subset (h.claim_iff.1 hclaim)
    rw [ht]
    exact ⟨hcapacity, tracks_of_perm h hperm⟩
  claim_false := fun r => claim_of_false
  release_iff := by
    intro r
    simp only [h.release_iff, mem_tracks]
    exact ⟨Or.inr, fun hr => hr.elim forall_mem_of_count_eq_zero id⟩
  release_true := by
    intro r hrelease
    have hout := of_release hrelease
    obtain ⟨-, -, hcapacity, hperm⟩ := h.release_spec (fun track htrack => (hout track htrack).1)
      fun track htrack => (hout track htrack).2
    refine ⟨hcapacity, ?_⟩
    ext track
    rw [Finset.mem_union, mem_tracks, mem_tracks, List.mem_toFinset, hperm.mem_iff, List.mem_append,
      or_comm]
  release_false := fun r => release_of_false

/-! ### What is held -/

/-- The tracks of a pack are divided between the regions that are held and free space. -/
structure Shared (s : FreeSpace) (held : List Region) : Prop where
  sound : s.Sound
  perm : (tracksIn held ++ tracksIn s.regions).Perm (List.range s.capacity)

theorem shared_ofCapacity (capacity : Nat) : Shared (ofCapacity capacity) [] := by
  obtain ⟨hsound, htracks⟩ := sound_ofCapacity capacity
  exact ⟨hsound, List.Perm.of_eq htracks⟩

namespace Shared

variable {s : FreeSpace} {held : List Region}

/-- Tracks that are handed out are held in addition. -/
theorem hand (h : Shared s held) {t : FreeSpace} {taken : List Region} (ht : t.Sound)
    (hcapacity : t.capacity = s.capacity)
    (hperm : (tracksIn s.regions).Perm (tracksIn taken ++ tracksIn t.regions)) :
    Shared t (held ++ taken) := by
  refine ⟨ht, ?_⟩
  rw [hcapacity, tracksIn_append, List.append_assoc]
  exact (hperm.symm.append_left _).trans h.perm

/-- A track of the pack that is not free is held. -/
theorem mem_held (h : Shared s held) {track : Nat} (hlt : track < s.capacity)
    (hout : track ∉ tracksIn s.regions) : track ∈ tracksIn held :=
  (List.mem_append.1 (h.perm.mem_iff.2 (List.mem_range.2 hlt))).resolve_right hout

/-- Tracks that are taken back are not held any more, in whatever regions they were. -/
theorem giveBack (h : Shared s held) {r : Region} (hrelease : (s.release r).1 = true) :
    Shared (s.release r).2 (held.flatMap fun f => f.without r) ∧
      (s.release r).2.capacity = s.capacity := by
  have hout := of_release hrelease
  obtain ⟨-, hsound, hcapacity, hperm⟩ := h.sound.release_spec
    (fun track htrack => (hout track htrack).1) fun track htrack => (hout track htrack).2
  have hnodup : (tracksIn held).Nodup :=
    (List.nodup_append.1 (h.perm.nodup_iff.2 List.nodup_range)).1
  have hback := perm_tracks_without hnodup fun track htrack =>
    h.mem_held (hout track htrack).1 (hout track htrack).2
  refine ⟨⟨hsound, ?_⟩, hcapacity⟩
  rw [hcapacity]
  refine (hperm.append_left _).trans ?_
  rw [← List.append_assoc]
  refine (List.perm_append_comm.append_right _).trans ?_
  exact (hback.append_right _).trans h.perm

/-- **A move leaves every track of the pack either free or held.** -/
theorem move (h : Shared s held) (m : Move) :
    Shared (s.move m) (s.hold held m) ∧ (s.move m).capacity = s.capacity := by
  cases m with
  | allocate count =>
      cases hallocate : s.allocate count with
      | none => simpa [FreeSpace.move, hold, hallocate] using h
      | some result =>
          obtain ⟨taken, t⟩ := result
          obtain ⟨ht, hcapacity, -, -, hperm⟩ := h.sound.allocate_spec hallocate
          simpa [FreeSpace.move, hold, hallocate, hcapacity] using h.hand ht hcapacity hperm
  | claim r =>
      cases hclaim : (s.claim r).1 with
      | false => simpa [FreeSpace.move, hold, hclaim, claim_of_false hclaim] using h
      | true =>
          obtain ⟨t, ht, hsound, hcapacity, hperm⟩ :=
            h.sound.claim_of_subset (h.sound.claim_iff.1 hclaim)
          have hperm : (tracksIn s.regions).Perm (tracksIn [r] ++ tracksIn t.regions) := by
            simpa using hperm
          simpa [FreeSpace.move, hold, ht, hcapacity] using h.hand hsound hcapacity hperm
  | release r =>
      cases hrelease : (s.release r).1 with
      | false => simpa [FreeSpace.move, hold, hrelease, release_of_false hrelease] using h
      | true =>
          obtain ⟨hshared, hcapacity⟩ := h.giveBack hrelease
          simpa [FreeSpace.move, hold, hrelease, hcapacity] using hshared

/-- So do moves one after another. -/
theorem after (h : Shared s held) (moves : List Move) :
    Shared (s.after moves) (s.outstanding held moves) ∧ (s.after moves).capacity = s.capacity := by
  induction moves generalizing s held with
  | nil => exact ⟨h, rfl⟩
  | cons m moves ih =>
      obtain ⟨hmove, hcapacity⟩ := h.move m
      obtain ⟨hafter, hcapacity'⟩ := ih hmove
      exact ⟨hafter, hcapacity'.trans hcapacity⟩

/-- **What is held can be given back in any order**, and the whole pack is free then. -/
theorem releaseAll (h : Shared s held) {order : List Region} (horder : order.Perm held) :
    Catalog.takesBack s order = true ∧ Catalog.releaseAll s order = ofCapacity s.capacity := by
  have hperm : (tracksIn order ++ tracksIn s.regions).Perm (List.range s.capacity) :=
    ((tracksIn_perm horder).append_right _).trans h.perm
  obtain ⟨htaken, hsound, hcapacity, htracks⟩ := Catalog.releaseAll_spec h.sound order
    (hperm.nodup_iff.2 List.nodup_range) fun track htrack =>
      List.mem_range.1 (hperm.mem_iff.1 (List.mem_append_left _ htrack))
  obtain ⟨hwhole, hall⟩ := sound_ofCapacity s.capacity
  exact ⟨htaken, hsound.eq_of_perm hwhole hcapacity (hall ▸ htracks.trans hperm)⟩

end Shared

/-- Free space that comes of moves on a whole pack. -/
def Reached (s : FreeSpace) : Prop := ∃ capacity moves, (ofCapacity capacity).after moves = s

theorem Reached.sound {s : FreeSpace} (h : s.Reached) : s.Sound := by
  obtain ⟨capacity, moves, rfl⟩ := h
  exact ((shared_ofCapacity capacity).after moves).1.sound

/-- **Free space is a set of tracks whatever moves have been made on a whole pack.**  It is sound and
does to the set of free tracks what it says; the moves before matter only for this set; and when the
regions that are outstanding are given back, in any order, all are taken back and the pack is whole
again. -/
theorem refines_after (capacity : Nat) (moves : List Move) :
    ((ofCapacity capacity).after moves).Refines ∧
      ((ofCapacity capacity).after moves).capacity = capacity ∧
      (∀ others, ((ofCapacity capacity).after others).tracks =
          ((ofCapacity capacity).after moves).tracks →
        (ofCapacity capacity).after others = (ofCapacity capacity).after moves) ∧
      ∀ order, order.Perm ((ofCapacity capacity).outstanding [] moves) →
        Catalog.takesBack ((ofCapacity capacity).after moves) order = true ∧
          Catalog.releaseAll ((ofCapacity capacity).after moves) order = ofCapacity capacity := by
  have hwhole := shared_ofCapacity capacity
  obtain ⟨hshared, hcapacity⟩ := hwhole.after moves
  have hcapacity : ((ofCapacity capacity).after moves).capacity = capacity := hcapacity
  refine ⟨hshared.sound.refines, hcapacity, ?_, ?_⟩
  · intro others htracks
    obtain ⟨hothers, hcapacity'⟩ := hwhole.after others
    exact hothers.sound.eq_of_tracks hshared.sound (hcapacity'.trans hcapacity.symm) htracks
  · intro order horder
    obtain ⟨htaken, hall⟩ := hshared.releaseAll horder
    exact ⟨htaken, hall.trans (congrArg ofCapacity hcapacity)⟩

end FreeSpace

end FileDirectory
