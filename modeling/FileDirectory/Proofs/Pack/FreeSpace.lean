/-
**No track is lost and none is handed out twice.**

The free regions of a pack are told apart, and regions that touch have been merged; so a run of
tracks that are all free lies inside one free region.  Claiming, allocating and releasing move tracks
between the free ones and those of the caller and neither lose nor double any.

Main definitions:

* `FileDirectory.tracksIn` — the tracks of regions, one by one;
* `FileDirectory.FreeSpace.Sound` — the free regions stand in order and apart, inside the pack, and
  the number of free tracks is theirs.

Main results:

* `FileDirectory.FreeSpace.Sound.eq_of_perm` — sound free space is told by its tracks;
* `FileDirectory.FreeSpace.Sound.claim_of_subset` — tracks that are all free can be claimed;
* `FileDirectory.FreeSpace.Sound.allocate_spec` — what an allocation takes;
* `FileDirectory.FreeSpace.Sound.release_spec` — tracks that are not free can be given back;
* `FileDirectory.FreeSpace.sub_le_free_of_allocate` — an allocation takes no more than is asked for.
-/

import FileDirectory.Pack.FreeSpace
import Mathlib.Data.List.Nodup
import Mathlib.Data.List.Pairwise
import Mathlib.Data.List.Perm.Subperm

set_option autoImplicit false

namespace FileDirectory

/-! ### The tracks of regions -/

/-- The tracks of a region in their order. -/
def Region.tracks (r : Region) : List Nat := List.range' r.first r.count

/-- The tracks of regions, region by region. -/
def tracksIn (regions : List Region) : List Nat := regions.flatMap Region.tracks

@[simp] theorem Region.mem_tracks {r : Region} {track : Nat} : track ∈ r.tracks ↔ track ∈ r := by
  rw [tracks, List.mem_range'_1, Region.mem_iff, Region.limit]

@[simp] theorem Region.length_tracks (r : Region) : r.tracks.length = r.count := List.length_range'

theorem Region.count_pos_of_mem {r : Region} {track : Nat} (h : track ∈ r) : 0 < r.count := by
  rw [mem_iff, limit] at h
  omega

theorem Region.mem_of_inside {f r : Region} (hfirst : f.first ≤ r.first) (hlimit : r.limit ≤ f.limit)
    {track : Nat} (h : track ∈ r) : track ∈ f :=
  ⟨Nat.le_trans hfirst h.1, Nat.lt_of_lt_of_le h.2 hlimit⟩

/-- A region is told by where it begins and where it ends. -/
theorem Region.eq_of_limit_eq {f r : Region} (hfirst : f.first = r.first)
    (hlimit : f.limit = r.limit) : f = r := by
  obtain ⟨first, count⟩ := f
  obtain ⟨first', count'⟩ := r
  obtain rfl : first = first' := hfirst
  obtain rfl : count = count' := Nat.add_left_cancel hlimit
  rfl

/-- Two runs, the second of which begins where the first ends, are one run. -/
theorem Region.tracks_append (first m n : Nat) :
    Region.tracks ⟨first, m⟩ ++ Region.tracks ⟨first + m, n⟩ = Region.tracks ⟨first, m + n⟩ :=
  List.range'_append_1

theorem Region.tracks_merge {f r : Region} (h : f.limit = r.first) :
    Region.tracks ⟨f.first, f.count + r.count⟩ = f.tracks ++ r.tracks := by
  rw [← Region.tracks_append]
  obtain ⟨first, count⟩ := r
  have hfirst : f.first + f.count = first := h
  rw [hfirst]

/-- A run is its beginning and the rest. -/
theorem Region.tracks_split {f : Region} {n : Nat} (h : n ≤ f.count) :
    f.tracks = Region.tracks ⟨f.first, n⟩ ++ Region.tracks ⟨f.first + n, f.count - n⟩ := by
  rw [Region.tracks_append, Nat.add_sub_cancel' h]

theorem Region.tracks_eq (r : Region) : r.tracks = Region.tracks ⟨r.first, r.limit - r.first⟩ := by
  rw [limit, Nat.add_sub_cancel_left]

/-- What reaches from one track up to another can be cut in between. -/
theorem Region.tracks_cut {first middle limit : Nat} (h : first ≤ middle) (h' : middle ≤ limit) :
    Region.tracks ⟨first, limit - first⟩ =
      Region.tracks ⟨first, middle - first⟩ ++ Region.tracks ⟨middle, limit - middle⟩ := by
  have hmiddle : first + (middle - first) = middle := Nat.add_sub_cancel' h
  have hcount : middle - first + (limit - middle) = limit - first := by omega
  rw [← hcount, ← Region.tracks_append, hmiddle]

theorem Region.nodup_tracks (r : Region) : r.tracks.Nodup := List.nodup_range'

@[simp] theorem tracksIn_nil : tracksIn [] = [] := rfl

@[simp] theorem tracksIn_cons (r : Region) (regions : List Region) :
    tracksIn (r :: regions) = r.tracks ++ tracksIn regions := rfl

@[simp] theorem tracksIn_append (first rest : List Region) :
    tracksIn (first ++ rest) = tracksIn first ++ tracksIn rest := List.flatMap_append

theorem mem_tracksIn {regions : List Region} {track : Nat} :
    track ∈ tracksIn regions ↔ ∃ r ∈ regions, track ∈ r := by
  simp [tracksIn]

theorem tracksIn_perm {first rest : List Region} (h : first.Perm rest) :
    (tracksIn first).Perm (tracksIn rest) := h.flatMap_right Region.tracks

/-- What regions give to another region, they give to it when one stands before them. -/
theorem perm_tracksIn_cons {fs gs : List Region} {r : Region}
    (h : (tracksIn fs).Perm (r.tracks ++ tracksIn gs)) (f : Region) :
    (tracksIn (f :: fs)).Perm (r.tracks ++ tracksIn (f :: gs)) :=
  (h.append_left f.tracks).trans (List.perm_append_comm_assoc _ _ _)

theorem length_tracksIn (regions : List Region) :
    (tracksIn regions).length = (regions.map Region.count).foldr (· + ·) 0 := by
  induction regions with
  | nil => rfl
  | cons r regions ih =>
      rw [tracksIn_cons, List.length_append, Region.length_tracks, ih, List.map_cons,
        List.foldr_cons]

/-! ### The region between two tracks -/

/-- The region that reaches from one track up to another, if that is beyond it. -/
def between (first limit : Nat) : List Region :=
  if first < limit then [⟨first, limit - first⟩] else []

section Between

variable {first limit : Nat}

theorem mem_between {r : Region} :
    r ∈ between first limit ↔ first < limit ∧ r = ⟨first, limit - first⟩ := by
  unfold between
  split <;> simp [*]

theorem tracksIn_between (first limit : Nat) :
    tracksIn (between first limit) = Region.tracks ⟨first, limit - first⟩ := by
  unfold between
  by_cases hlt : first < limit
  · rw [if_pos hlt]
    exact List.append_nil _
  · rw [if_neg hlt, Nat.sub_eq_zero_of_le (Nat.not_lt.1 hlt)]
    rfl

theorem mem_tracksIn_between {track : Nat} :
    track ∈ tracksIn (between first limit) ↔ first ≤ track ∧ track < limit := by
  rw [tracksIn_between, Region.mem_tracks, Region.mem_iff, Region.limit]
  dsimp only
  omega

theorem nodup_tracksIn_between (first limit : Nat) : (tracksIn (between first limit)).Nodup := by
  rw [tracksIn_between]
  exact Region.nodup_tracks _

end Between

/-! ### Regions that stand apart -/

/-- Regions in ascending order that do not even touch, none of them empty. -/
structure Separated (regions : List Region) : Prop where
  apart : regions.Pairwise fun f g => f.limit < g.first
  nonempty : ∀ f ∈ regions, 0 < f.count

theorem Separated.tail {f : Region} {fs : List Region} (h : Separated (f :: fs)) : Separated fs :=
  ⟨(List.pairwise_cons.1 h.apart).2, fun g hg => h.nonempty g (List.mem_cons_of_mem _ hg)⟩

theorem Separated.head_lt {f g : Region} {fs : List Region} (h : Separated (f :: fs))
    (hg : g ∈ fs) : f.limit < g.first :=
  (List.pairwise_cons.1 h.apart).1 g hg

theorem Separated.cons {f : Region} {fs : List Region} (h : Separated fs) (hf : 0 < f.count)
    (hlt : ∀ g ∈ fs, f.limit < g.first) : Separated (f :: fs) :=
  ⟨List.pairwise_cons.2 ⟨hlt, h.apart⟩, List.forall_mem_cons.2 ⟨hf, h.nonempty⟩⟩

theorem Separated.append {fs gs : List Region} (hf : Separated fs) (hg : Separated gs)
    (hlt : ∀ f ∈ fs, ∀ g ∈ gs, f.limit < g.first) : Separated (fs ++ gs) :=
  ⟨List.pairwise_append.2 ⟨hf.apart, hg.apart, hlt⟩,
    List.forall_mem_append.2 ⟨hf.nonempty, hg.nonempty⟩⟩

theorem separated_between (first limit : Nat) : Separated (between first limit) := by
  refine ⟨?_, fun f hf => ?_⟩
  · unfold between
    split
    · exact List.pairwise_singleton _ _
    · exact List.Pairwise.nil
  · obtain ⟨hlt, rfl⟩ := mem_between.1 hf
    exact Nat.sub_pos_of_lt hlt

/-- No track is in two of them. -/
theorem Separated.nodup_tracksIn {regions : List Region} (h : Separated regions) :
    (tracksIn regions).Nodup := by
  induction regions with
  | nil => exact List.nodup_nil
  | cons f fs ih =>
      rw [tracksIn_cons, List.nodup_append]
      refine ⟨f.nodup_tracks, ih h.tail, ?_⟩
      rintro track hin other hother rfl
      obtain ⟨g, hg, hout⟩ := mem_tracksIn.1 hother
      have hlt := h.head_lt hg
      rw [Region.mem_tracks, Region.mem_iff] at hin
      rw [Region.mem_iff] at hout
      omega

/-- The first of them begins with a track of theirs, and they have none below it. -/
theorem Separated.first_mem {f : Region} {fs : List Region} (h : Separated (f :: fs)) :
    f.first ∈ tracksIn (f :: fs) :=
  mem_tracksIn.2 ⟨f, List.mem_cons_self, Nat.le_refl _,
    Nat.lt_add_of_pos_right (h.nonempty f List.mem_cons_self)⟩

theorem Separated.first_le {f : Region} {fs : List Region} (h : Separated (f :: fs)) {track : Nat}
    (htrack : track ∈ tracksIn (f :: fs)) : f.first ≤ track := by
  obtain ⟨g, hg, hin⟩ := mem_tracksIn.1 htrack
  rw [Region.mem_iff] at hin
  rcases List.mem_cons.1 hg with rfl | hg
  · exact hin.1
  · have hlt := h.head_lt hg
    rw [Region.limit] at hlt
    omega

/-- Right behind the first of them is a track that none of them has. -/
theorem Separated.limit_notMem {f : Region} {fs : List Region} (h : Separated (f :: fs)) :
    f.limit ∉ tracksIn (f :: fs) := by
  intro htrack
  obtain ⟨g, hg, hin⟩ := mem_tracksIn.1 htrack
  rw [Region.mem_iff] at hin
  rcases List.mem_cons.1 hg with rfl | hg
  · exact Nat.lt_irrefl _ hin.2
  · exact Nat.lt_irrefl _ (Nat.lt_of_lt_of_le (h.head_lt hg) hin.1)

/-- The others have the tracks that the first of them does not have. -/
theorem Separated.mem_tail_iff {f : Region} {fs : List Region} (h : Separated (f :: fs))
    {track : Nat} : track ∈ tracksIn fs ↔ track ∈ tracksIn (f :: fs) ∧ track ∉ f := by
  have hdisjoint := List.disjoint_of_nodup_append h.nodup_tracksIn
  rw [tracksIn_cons, List.mem_append, Region.mem_tracks]
  constructor
  · intro hin
    exact ⟨Or.inr hin, fun hself => hdisjoint (Region.mem_tracks.2 hself) hin⟩
  · rintro ⟨hself | hin, hout⟩
    · exact absurd hself hout
    · exact hin

/-- The first of regions whose tracks others have begins no lower than the first of those, and ends
no higher if it begins with it. -/
theorem Separated.head_le {f g : Region} {fs gs : List Region} (hf : Separated (f :: fs))
    (hg : Separated (g :: gs)) (h : ∀ track ∈ tracksIn (f :: fs), track ∈ tracksIn (g :: gs)) :
    g.first ≤ f.first ∧ (f.first ≤ g.first → f.limit ≤ g.limit) := by
  refine ⟨hg.first_le (h _ hf.first_mem), fun hle => Nat.le_of_not_lt fun hlt => ?_⟩
  have hpos := hg.nonempty g List.mem_cons_self
  refine hg.limit_notMem (h _ (mem_tracksIn.2 ⟨f, List.mem_cons_self, ?_, hlt⟩))
  rw [Region.limit]
  omega

/-- **Regions that stand apart are told by their tracks.** -/
theorem Separated.eq_of_mem_iff {fs gs : List Region} (hf : Separated fs) (hg : Separated gs)
    (h : ∀ track, track ∈ tracksIn fs ↔ track ∈ tracksIn gs) : fs = gs := by
  induction fs generalizing gs with
  | nil =>
      cases gs with
      | nil => rfl
      | cons g gs => cases (h _).2 hg.first_mem
  | cons f fs ih =>
      cases gs with
      | nil => cases (h _).1 hf.first_mem
      | cons g gs =>
          obtain ⟨hfirst, hlimit⟩ := hf.head_le hg fun track => (h track).1
          obtain ⟨hfirst', hlimit'⟩ := hg.head_le hf fun track => (h track).2
          have hlimits := Nat.le_antisymm (hlimit hfirst') (hlimit' hfirst)
          obtain rfl : f = g := Region.eq_of_limit_eq (Nat.le_antisymm hfirst' hfirst) hlimits
          refine congrArg (f :: ·) (ih hf.tail hg.tail fun track => ?_)
          rw [hf.mem_tail_iff, hg.mem_tail_iff, h track]

/-- Of two members of an ordered list one comes first. -/
theorem pairwise_or {α : Type} {l : List α} {R : α → α → Prop} (h : l.Pairwise R) {a b : α}
    (ha : a ∈ l) (hb : b ∈ l) (hne : a ≠ b) : R a b ∨ R b a := by
  have hsymm : Std.Symm fun x y => R x y ∨ R y x := ⟨fun _ _ => Or.symm⟩
  have heither : l.Pairwise fun x y => R x y ∨ R y x := h.imp Or.inl
  exact heither.forall ha hb hne

/-- **A run of tracks that are all in such regions lies inside one of them.** -/
theorem Separated.exists_inside {regions : List Region} (h : Separated regions) {r : Region}
    (hr : 0 < r.count) (hsub : ∀ track ∈ r, track ∈ tracksIn regions) :
    ∃ f ∈ regions, f.first ≤ r.first ∧ r.limit ≤ f.limit := by
  have hlimit : r.limit = r.first + r.count := rfl
  obtain ⟨f, hf, hin⟩ := mem_tracksIn.1 (hsub r.first (by rw [Region.mem_iff]; omega))
  rw [Region.mem_iff] at hin
  refine ⟨f, hf, hin.1, Nat.not_lt.1 ?_⟩
  intro hlt
  -- the track after the region would lie in another one, which would touch it
  obtain ⟨g, hg, hout⟩ := mem_tracksIn.1 (hsub f.limit (by rw [Region.mem_iff]; omega))
  rw [Region.mem_iff] at hout
  have hpos := h.nonempty f hf
  have hflimit : f.limit = f.first + f.count := rfl
  by_cases heq : f = g
  · subst heq
    omega
  · rcases pairwise_or h.apart hf hg heq with hfg | hgf
    · omega
    · omega

namespace FreeSpace

/-! ### Taking a region -/

theorem remainder_eq (f r : Region) :
    remainder f r = between f.first r.first ++ between r.limit f.limit := rfl

section Remainder

variable {f r : Region} (hfirst : f.first ≤ r.first) (hlimit : r.limit ≤ f.limit)
include hfirst hlimit

/-- What is left of a region, and what was taken, are the region. -/
theorem perm_remainder : f.tracks.Perm (r.tracks ++ tracksIn (remainder f r)) := by
  have hsplit : f.tracks = Region.tracks ⟨f.first, r.first - f.first⟩ ++
      (r.tracks ++ Region.tracks ⟨r.limit, f.limit - r.limit⟩) := by
    have hle : r.first ≤ r.limit := Nat.le_add_right _ _
    rw [f.tracks_eq, r.tracks_eq, ← Region.tracks_cut hle hlimit,
      ← Region.tracks_cut hfirst (Nat.le_trans hle hlimit)]
  rw [remainder_eq, tracksIn_append, tracksIn_between, tracksIn_between, hsplit]
  exact List.perm_append_comm_assoc _ _ _

/-- What is left of a region lies inside it. -/
theorem inside_of_mem_remainder {d : Region} (hd : d ∈ remainder f r) :
    (f.first ≤ d.first ∧ d.limit ≤ f.limit) ∧ 0 < d.count := by
  rw [remainder_eq] at hd
  unfold Region.limit at *
  rcases List.mem_append.1 hd with hd | hd
  · obtain ⟨hlt, rfl⟩ := mem_between.1 hd
    dsimp only
    omega
  · obtain ⟨hlt, rfl⟩ := mem_between.1 hd
    dsimp only
    omega

end Remainder

/-- What is left on both sides of a region that was taken does not touch. -/
theorem separated_remainder {f r : Region} (hr : 0 < r.count) : Separated (remainder f r) := by
  rw [remainder_eq]
  refine (separated_between _ _).append (separated_between _ _) fun d hd e he => ?_
  obtain ⟨hlt, rfl⟩ := mem_between.1 hd
  obtain ⟨-, rfl⟩ := mem_between.1 he
  unfold Region.limit
  dsimp only
  omega

/-- Taking a region that lies inside a free one. -/
theorem carve_spec {regions : List Region} (h : Separated regions) {r : Region} (hr : 0 < r.count)
    (hin : ∃ f ∈ regions, f.first ≤ r.first ∧ r.limit ≤ f.limit) :
    Separated (carve r regions) ∧ (tracksIn regions).Perm (r.tracks ++ tracksIn (carve r regions)) ∧
      ∀ g ∈ carve r regions, ∃ f ∈ regions, f.first ≤ g.first ∧ g.limit ≤ f.limit := by
  have hrlimit : r.limit = r.first + r.count := rfl
  induction regions with
  | nil =>
      obtain ⟨f, hf, -⟩ := hin
      cases hf
  | cons f fs ih =>
      obtain ⟨g, hg, hfirst, hlast⟩ := hin
      rw [carve]
      by_cases hlt : r.first < f.limit
      · -- the region cannot lie inside a later one
        have hgf : g = f := by
          rcases List.mem_cons.1 hg with rfl | hg'
          · rfl
          · have := h.head_lt hg'
            omega
        subst hgf
        rw [if_pos hlt, tracksIn_cons, tracksIn_append]
        refine ⟨(separated_remainder hr).append h.tail ?_, ?_, ?_⟩
        · intro d hd e he
          exact Nat.lt_of_le_of_lt (inside_of_mem_remainder hfirst hlast hd).1.2 (h.head_lt he)
        · rw [← List.append_assoc]
          exact (perm_remainder hfirst hlast).append_right _
        · intro d hd
          rcases List.mem_append.1 hd with hd | hd
          · exact ⟨g, List.mem_cons_self, (inside_of_mem_remainder hfirst hlast hd).1⟩
          · exact ⟨d, List.mem_cons_of_mem _ hd, Nat.le_refl _, Nat.le_refl _⟩
      · rw [if_neg hlt]
        -- the free region that has it comes later, and this one stays
        have hlater : g ∈ fs := by
          rcases List.mem_cons.1 hg with rfl | hg'
          · omega
          · exact hg'
        obtain ⟨hsep, hperm, hinside⟩ := ih h.tail ⟨g, hlater, hfirst, hlast⟩
        refine ⟨hsep.cons (h.nonempty f List.mem_cons_self) ?_, perm_tracksIn_cons hperm f, ?_⟩
        · intro d hd
          obtain ⟨e, he, hle, -⟩ := hinside d hd
          exact Nat.lt_of_lt_of_le (h.head_lt he) hle
        · intro d hd
          rcases List.mem_cons.1 hd with rfl | hd
          · exact ⟨d, List.mem_cons_self, Nat.le_refl _, Nat.le_refl _⟩
          · obtain ⟨e, he, hle⟩ := hinside d hd
            exact ⟨e, List.mem_cons_of_mem _ he, hle⟩

/-! ### Giving a region back -/

/-- Regions that have the tracks of others and of one region more, and begin where one of those does. -/
structure Joined (r : Region) (regions joined : List Region) : Prop where
  separated : Separated joined
  perm : (tracksIn joined).Perm (r.tracks ++ tracksIn regions)
  firsts : ∀ g ∈ joined, g.first = r.first ∨ ∃ f ∈ regions, g.first = f.first

section Joined

variable {f r : Region} {fs joined : List Region}

/-- A region that ends before the one that joins begins stays as it is. -/
theorem Joined.cons (hjoined : Joined r fs joined) (h : Separated (f :: fs))
    (hbefore : f.limit < r.first) : Joined r (f :: fs) (f :: joined) := by
  refine ⟨hjoined.separated.cons (h.nonempty f List.mem_cons_self) ?_,
    perm_tracksIn_cons hjoined.perm f, ?_⟩
  · intro g hg
    rcases hjoined.firsts g hg with heq | ⟨e, he, heq⟩
    · rwa [heq]
    · rw [heq]
      exact h.head_lt he
  · intro g hg
    rcases List.mem_cons.1 hg with rfl | hg
    · exact Or.inr ⟨g, List.mem_cons_self, rfl⟩
    · exact (hjoined.firsts g hg).imp_right fun ⟨e, he, heq⟩ => ⟨e, List.mem_cons_of_mem _ he, heq⟩

/-- A region that ends where the one that joins begins is merged with it, and the two join the others. -/
theorem Joined.of_merged (hjoined : Joined ⟨f.first, f.count + r.count⟩ fs joined)
    (hmeets : f.limit = r.first) : Joined r (f :: fs) joined := by
  refine ⟨hjoined.separated, hjoined.perm.trans ?_, fun g hg => Or.inr ?_⟩
  · rw [Region.tracks_merge hmeets, tracksIn_cons, List.append_assoc]
    exact List.perm_append_comm_assoc _ _ _
  · rcases hjoined.firsts g hg with heq | ⟨e, he, heq⟩
    · exact ⟨f, List.mem_cons_self, heq⟩
    · exact ⟨e, List.mem_cons_of_mem _ he, heq⟩

/-- A region that begins where the one that joins ends is merged with it. -/
theorem joined_merge (h : Separated (f :: fs)) (hr : 0 < r.count) (hmeets : r.limit = f.first) :
    Joined r (f :: fs) (⟨r.first, r.count + f.count⟩ :: fs) := by
  refine ⟨h.tail.cons (Nat.add_pos_left hr _) ?_, ?_, ?_⟩
  · intro g hg
    have hlt := h.head_lt hg
    unfold Region.limit at *
    dsimp only
    omega
  · rw [tracksIn_cons, tracksIn_cons, Region.tracks_merge hmeets, List.append_assoc]
  · intro g hg
    rcases List.mem_cons.1 hg with rfl | hg
    · exact Or.inl rfl
    · exact Or.inr ⟨g, List.mem_cons_of_mem _ hg, rfl⟩

/-- A region that ends before the others begin stands in front of them. -/
theorem joined_front (h : Separated fs) (hr : 0 < r.count) (hlt : ∀ g ∈ fs, r.limit < g.first) :
    Joined r fs (r :: fs) := by
  refine ⟨h.cons hr hlt, List.Perm.refl _, ?_⟩
  intro g hg
  rcases List.mem_cons.1 hg with rfl | hg
  · exact Or.inl rfl
  · exact Or.inr ⟨g, hg, rfl⟩

end Joined

/-- A region that joins free ones, apart from all of them, is merged with those that it touches. -/
theorem join_spec {regions : List Region} (h : Separated regions) {r : Region} (hr : 0 < r.count)
    (hout : ∀ f ∈ regions, r.limit ≤ f.first ∨ f.limit ≤ r.first) :
    Joined r regions (join r regions) := by
  induction regions generalizing r with
  | nil => exact joined_front h hr fun g hg => (by cases hg)
  | cons f fs ih =>
      have hrlimit : r.limit = r.first + r.count := rfl
      have hflimit : f.limit = f.first + f.count := rfl
      have hpos := h.nonempty f List.mem_cons_self
      have houtf := hout f List.mem_cons_self
      have houtfs : ∀ g ∈ fs, r.limit ≤ g.first ∨ g.limit ≤ r.first :=
        fun g hg => hout g (List.mem_cons_of_mem _ hg)
      rw [join]
      by_cases hbefore : f.limit < r.first
      · rw [if_pos hbefore]
        exact (ih h.tail hr houtfs).cons h hbefore
      · rw [if_neg hbefore]
        by_cases htouch : f.limit = r.first
        · rw [if_pos htouch]
          refine (ih (r := ⟨f.first, f.count + r.count⟩) h.tail (Nat.add_pos_left hpos _) ?_).of_merged
            htouch
          -- what the two are merged to ends where the region did
          have hmerged : (⟨f.first, f.count + r.count⟩ : Region).limit = r.limit := by
            unfold Region.limit
            dsimp only
            omega
          intro g hg
          rw [hmerged]
          refine (houtfs g hg).imp_right fun hle => ?_
          have hlt := h.head_lt hg
          have hglimit : g.limit = g.first + g.count := rfl
          omega
        · rw [if_neg htouch]
          by_cases hjoins : r.limit = f.first
          · rw [if_pos hjoins]
            exact joined_merge h hr hjoins
          · rw [if_neg hjoins]
            have hfront : r.limit < f.first := by omega
            refine joined_front h hr (List.forall_mem_cons.2 ⟨hfront, fun g hg => ?_⟩)
            have := h.head_lt hg
            omega

/-! ### Sound free space -/

/-- The free regions stand in order and apart, lie inside the pack, and the number of free tracks is
theirs. -/
structure Sound (s : FreeSpace) : Prop where
  separated : Separated s.regions
  bounded : ∀ track ∈ tracksIn s.regions, track < s.capacity
  free_eq : s.free = (tracksIn s.regions).length

theorem sound_ofCapacity (capacity : Nat) :
    Sound (ofCapacity capacity) ∧ tracksIn (ofCapacity capacity).regions = List.range capacity := by
  have htracks : tracksIn (ofCapacity capacity).regions = List.range capacity := by
    unfold ofCapacity
    by_cases h : capacity = 0
    · simp [h]
    · simp [h, Region.tracks, List.range_eq_range']
  refine ⟨⟨?_, ?_, ?_⟩, htracks⟩
  · unfold ofCapacity
    by_cases h : capacity = 0
    · simp only [if_pos h]
      exact ⟨List.Pairwise.nil, fun _ hf => (by cases hf)⟩
    · simp only [if_neg h]
      refine ⟨List.pairwise_singleton _ _, ?_⟩
      intro f hf
      rw [List.mem_singleton.1 hf]
      exact Nat.pos_of_ne_zero h
  · intro track htrack
    rw [htracks] at htrack
    exact List.mem_range.1 htrack
  · rw [htracks, List.length_range]
    rfl

/-- **Sound free space is told by its tracks.** -/
theorem Sound.eq_of_perm {s t : FreeSpace} (hs : Sound s) (ht : Sound t)
    (hcapacity : s.capacity = t.capacity) (h : (tracksIn s.regions).Perm (tracksIn t.regions)) :
    s = t := by
  have hregions := hs.separated.eq_of_mem_iff ht.separated fun _ => h.mem_iff
  have hfree : s.free = t.free := by rw [hs.free_eq, ht.free_eq, h.length_eq]
  obtain ⟨capacity, free, regions⟩ := s
  cases hcapacity
  cases hfree
  cases hregions
  rfl

/-- Taking tracks that are all free. -/
theorem Sound.take {s : FreeSpace} (h : Sound s) {r : Region} (hr : 0 < r.count)
    (hsub : ∀ track ∈ r, track ∈ tracksIn s.regions) :
    Sound (s.take r) ∧ (tracksIn s.regions).Perm (r.tracks ++ tracksIn (s.take r).regions) := by
  have hin := h.separated.exists_inside hr hsub
  obtain ⟨hsep, hperm, -⟩ := carve_spec h.separated hr hin
  refine ⟨⟨hsep, ?_, ?_⟩, hperm⟩
  · intro track htrack
    exact h.bounded track (hperm.mem_iff.2 (List.mem_append_right _ htrack))
  · have hlength := hperm.length_eq
    rw [List.length_append, Region.length_tracks] at hlength
    show s.free - r.count = (tracksIn (carve r s.regions)).length
    rw [h.free_eq]
    omega

/-- **Tracks that are all free can be claimed.** -/
theorem Sound.claim_of_subset {s : FreeSpace} (h : Sound s) {r : Region}
    (hsub : ∀ track ∈ r, track ∈ tracksIn s.regions) :
    ∃ t, s.claim r = (true, t) ∧ Sound t ∧ t.capacity = s.capacity ∧
      (tracksIn s.regions).Perm (r.tracks ++ tracksIn t.regions) := by
  unfold claim
  by_cases hzero : r.count = 0
  · rw [if_pos hzero]
    refine ⟨s, rfl, h, rfl, ?_⟩
    rw [Region.tracks, hzero]
    exact List.Perm.refl _
  · have hpos := Nat.pos_of_ne_zero hzero
    obtain ⟨f, hf, hfirst, hlimit⟩ := h.separated.exists_inside hpos hsub
    have hany : (s.regions.any fun f => f.first ≤ r.first && r.limit ≤ f.limit) = true := by
      rw [List.any_eq_true]
      exact ⟨f, hf, by simp [hfirst, hlimit]⟩
    rw [if_neg hzero, if_pos hany]
    obtain ⟨hsound, hperm⟩ := h.take hpos hsub
    exact ⟨_, rfl, hsound, rfl, hperm⟩

/-- Tracks that are claimed were all free. -/
theorem subset_of_claim {s t : FreeSpace} {r : Region}
    (hclaim : s.claim r = (true, t)) : ∀ track ∈ r, track ∈ tracksIn s.regions := by
  intro track htrack
  rw [Region.mem_iff, Region.limit] at htrack
  unfold claim at hclaim
  split at hclaim
  · omega
  · split at hclaim
    · rename_i hany
      obtain ⟨f, hf, hin⟩ := List.any_eq_true.1 hany
      rw [Bool.and_eq_true, decide_eq_true_eq, decide_eq_true_eq, Region.limit] at hin
      refine mem_tracksIn.2 ⟨f, hf, ?_⟩
      rw [Region.mem_iff]
      omega
    · cases hclaim

/-- Tracks inside the pack none of which is free can be given back. -/
theorem Sound.release_spec {s : FreeSpace} (h : Sound s) {r : Region}
    (hbound : ∀ track ∈ r, track < s.capacity) (hout : ∀ track ∈ r, track ∉ tracksIn s.regions) :
    (s.release r).1 = true ∧ Sound (s.release r).2 ∧ (s.release r).2.capacity = s.capacity ∧
      (tracksIn (s.release r).2.regions).Perm (r.tracks ++ tracksIn s.regions) := by
  have hrlimit : r.limit = r.first + r.count := rfl
  unfold release
  by_cases hzero : r.count = 0
  · rw [if_pos hzero]
    refine ⟨rfl, h, rfl, ?_⟩
    rw [Region.tracks, hzero]
    exact List.Perm.refl _
  · have hpos := Nat.pos_of_ne_zero hzero
    have hinside : ¬s.capacity < r.limit := by
      have := hbound (r.limit - 1) (by rw [Region.mem_iff]; omega)
      omega
    have hapart : ∀ f ∈ s.regions, r.limit ≤ f.first ∨ f.limit ≤ r.first := by
      intro f hf
      by_contra hcross
      have hflimit : f.limit = f.first + f.count := rfl
      have hfpos := h.separated.nonempty f hf
      -- the later of the two first tracks would be in both
      refine hout (max f.first r.first) ?_ (mem_tracksIn.2 ⟨f, hf, ?_⟩)
      · rw [Region.mem_iff]
        omega
      · rw [Region.mem_iff]
        omega
    have hany : ¬(s.regions.any fun f => f.first < r.limit && r.first < f.limit) = true := by
      rw [List.any_eq_true]
      rintro ⟨f, hf, hcross⟩
      rw [Bool.and_eq_true, decide_eq_true_eq, decide_eq_true_eq] at hcross
      have := hapart f hf
      omega
    rw [if_neg hzero, if_neg hinside, if_neg hany]
    obtain ⟨hsep, hperm, -⟩ := join_spec h.separated hpos hapart
    refine ⟨rfl, ⟨hsep, ?_, ?_⟩, rfl, hperm⟩
    · intro track htrack
      rcases List.mem_append.1 (hperm.mem_iff.1 htrack) with hin | hin
      · exact hbound track (Region.mem_tracks.1 hin)
      · exact h.bounded track hin
    · have hlength := hperm.length_eq
      rw [List.length_append, Region.length_tracks] at hlength
      show s.free + r.count = (tracksIn (join r s.regions)).length
      rw [hlength, h.free_eq, Nat.add_comm]

/-! ### Allocating -/

/-- Taking regions in turn whose tracks are told apart and all free. -/
theorem Sound.foldl_take {s : FreeSpace} (h : Sound s) {regions : List Region}
    (hpos : ∀ r ∈ regions, 0 < r.count) (hnodup : (tracksIn regions).Nodup)
    (hsub : ∀ track ∈ tracksIn regions, track ∈ tracksIn s.regions) :
    Sound (regions.foldl FreeSpace.take s) ∧
      (regions.foldl FreeSpace.take s).capacity = s.capacity ∧
      (tracksIn s.regions).Perm
        (tracksIn regions ++ tracksIn (regions.foldl FreeSpace.take s).regions) := by
  induction regions generalizing s with
  | nil => exact ⟨h, rfl, List.Perm.refl _⟩
  | cons r regions ih =>
      rw [tracksIn_cons] at hnodup hsub
      obtain ⟨-, hrest, hapart⟩ := List.nodup_append.1 hnodup
      obtain ⟨hsound, hperm⟩ := h.take (hpos r List.mem_cons_self) fun track htrack =>
        hsub track (List.mem_append_left _ (Region.mem_tracks.2 htrack))
      obtain ⟨hafter, hcapacity, hpermAfter⟩ := ih hsound
        (fun other hother => hpos other (List.mem_cons_of_mem _ hother)) hrest (by
          intro track htrack
          have hin := hperm.mem_iff.1 (hsub track (List.mem_append_right _ htrack))
          rcases List.mem_append.1 hin with hin | hin
          · exact absurd rfl (hapart _ hin _ htrack)
          · exact hin)
      refine ⟨hafter, hcapacity, ?_⟩
      rw [tracksIn_cons, List.append_assoc]
      exact hperm.trans (hpermAfter.append_left _)

/-- Gathering takes the beginnings of free regions, as many tracks as are wanted if there are. -/
theorem gather_spec {regions : List Region} (hpos : ∀ r ∈ regions, 0 < r.count) (wanted : Nat) :
    (tracksIn (gather wanted regions)).Sublist (tracksIn regions) ∧
      (∀ r ∈ gather wanted regions, 0 < r.count) ∧
      (tracksIn (gather wanted regions)).length = min wanted (tracksIn regions).length := by
  induction regions generalizing wanted with
  | nil => exact ⟨List.Sublist.refl _, fun _ hr => (by cases hr), by simp [gather]⟩
  | cons f fs ih =>
      rw [gather]
      by_cases hzero : wanted = 0
      · rw [if_pos hzero]
        exact ⟨List.nil_sublist _, fun _ hr => (by cases hr), by simp [hzero]⟩
      · rw [if_neg hzero]
        obtain ⟨hsub, hcounts, hlength⟩ := ih
          (fun r hr => hpos r (List.mem_cons_of_mem _ hr)) (wanted - min f.count wanted)
        have hf := hpos f List.mem_cons_self
        refine ⟨?_, ?_, ?_⟩
        · rw [tracksIn_cons, tracksIn_cons]
          refine List.Sublist.append ?_ hsub
          rw [Region.tracks_split (Nat.min_le_left f.count wanted)]
          exact List.sublist_append_left _ _
        · intro r hr
          rcases List.mem_cons.1 hr with rfl | hr
          · dsimp only
            omega
          · exact hcounts r hr
        · rw [tracksIn_cons, tracksIn_cons, List.length_append, List.length_append, hlength,
            Region.length_tracks, Region.length_tracks]
          dsimp only
          omega

/-- A region from which everything is taken is a free one that is large enough. -/
theorem of_single_eq_some {s : FreeSpace} {count : Nat} {f : Region} (h : s.single count = some f) :
    f ∈ s.regions ∧ count ≤ f.count := by
  unfold single at h
  rcases hfind : s.regions.find? fun f => decide (f.count = count) with _ | g
  · rw [hfind] at h
    have hlt := List.find?_some h
    exact ⟨List.mem_of_find?_eq_some h, Nat.le_of_lt (of_decide_eq_true hlt)⟩
  · rw [hfind] at h
    obtain rfl := Option.some.inj h
    have heq := List.find?_some hfind
    exact ⟨List.mem_of_find?_eq_some hfind, Nat.le_of_eq (of_decide_eq_true heq).symm⟩

/-- What an allocation takes is as much as is asked for, from one free region or from several. -/
theorem Sound.choose_spec {s : FreeSpace} (h : Sound s) {count : Nat} (hcount : 0 < count)
    (hfree : count ≤ s.free) :
    (∀ r ∈ s.choose count, 0 < r.count) ∧ (tracksIn (s.choose count)).length = count ∧
      (tracksIn (s.choose count)).Subperm (tracksIn s.regions) := by
  unfold choose
  cases hsingle : s.single count with
  | some f =>
      obtain ⟨hmem, hle⟩ := of_single_eq_some hsingle
      refine ⟨?_, ?_, ?_⟩
      · intro r hr
        rw [List.mem_singleton.1 hr]
        exact hcount
      · rw [tracksIn_cons, tracksIn_nil, List.append_nil, Region.length_tracks]
      · obtain ⟨before, after, hsplit⟩ := List.append_of_mem hmem
        rw [hsplit, tracksIn_append, tracksIn_cons, tracksIn_cons, tracksIn_nil, List.append_nil,
          Region.tracks_split hle, List.append_assoc]
        exact ((List.sublist_append_left _ _).trans (List.sublist_append_right _ _)).subperm
  | none =>
      have hpos : ∀ r ∈ s.regions.mergeSort gathersBefore, 0 < r.count := by
        intro r hr
        exact h.separated.nonempty r (List.mem_mergeSort.1 hr)
      obtain ⟨hsub, hcounts, hlength⟩ := gather_spec hpos count
      have hall := tracksIn_perm (List.mergeSort_perm s.regions gathersBefore)
      have hsorted := tracksIn_perm (List.mergeSort_perm
        (gather count (s.regions.mergeSort gathersBefore)) fun f g => f.first ≤ g.first)
      refine ⟨?_, ?_, ?_⟩
      · intro r hr
        exact hcounts r (List.mem_mergeSort.1 hr)
      · rw [hsorted.length_eq, hlength, hall.length_eq, ← h.free_eq]
        exact Nat.min_eq_left hfree
      · exact hsorted.subperm.trans (hsub.subperm.trans hall.subperm)

/-- **What an allocation takes**: as many tracks as are asked for, all of them free before, in
regions that are told apart. -/
theorem Sound.allocate_spec {s t : FreeSpace} (h : Sound s) {count : Nat} {taken : List Region}
    (hallocate : s.allocate count = some (taken, t)) :
    Sound t ∧ t.capacity = s.capacity ∧ (∀ r ∈ taken, 0 < r.count) ∧
      (tracksIn taken).length = count ∧
      (tracksIn s.regions).Perm (tracksIn taken ++ tracksIn t.regions) := by
  unfold allocate at hallocate
  split at hallocate
  · cases hallocate
  · rename_i hfree
    split at hallocate
    · rename_i hzero
      cases hallocate
      exact ⟨h, rfl, fun _ hr => (by cases hr), hzero.symm, List.Perm.refl _⟩
    · rename_i hzero
      cases hallocate
      obtain ⟨hpos, hlength, hsub⟩ :=
        h.choose_spec (Nat.pos_of_ne_zero hzero) (Nat.not_lt.1 hfree)
      have hnodup : (tracksIn (s.choose count)).Nodup := by
        obtain ⟨l, hl, hsublist⟩ := hsub
        exact hl.nodup (h.separated.nodup_tracksIn.sublist hsublist)
      obtain ⟨hsound, hcapacity, hperm⟩ := h.foldl_take hpos hnodup fun track htrack =>
        hsub.subset htrack
      exact ⟨hsound, hcapacity, hpos, hlength, hperm⟩

/-! ### How much an allocation takes -/

theorem length_gather_le (wanted : Nat) (regions : List Region) :
    (tracksIn (gather wanted regions)).length ≤ wanted := by
  induction regions generalizing wanted with
  | nil => exact Nat.zero_le _
  | cons f fs ih =>
      rw [gather]
      by_cases hzero : wanted = 0
      · rw [if_pos hzero]
        exact Nat.zero_le _
      · rw [if_neg hzero, tracksIn_cons, List.length_append, Region.length_tracks]
        have := ih (wanted - min f.count wanted)
        dsimp only
        omega

theorem length_choose_le (s : FreeSpace) (count : Nat) :
    (tracksIn (s.choose count)).length ≤ count := by
  unfold choose
  cases s.single count with
  | some f => simp
  | none =>
      dsimp only
      rw [(tracksIn_perm (List.mergeSort_perm _ _)).length_eq]
      exact length_gather_le _ _

theorem free_foldl_take (s : FreeSpace) (regions : List Region) :
    (regions.foldl FreeSpace.take s).free = s.free - (tracksIn regions).length := by
  induction regions generalizing s with
  | nil => rfl
  | cons r regions ih =>
      rw [List.foldl_cons, ih, tracksIn_cons, List.length_append, Region.length_tracks]
      exact Nat.sub_sub _ _ _

/-- Whatever the free regions are, an allocation lowers the number of free tracks by no more than is
asked for. -/
theorem sub_le_free_of_allocate {s t : FreeSpace} {count : Nat} {taken : List Region}
    (h : s.allocate count = some (taken, t)) : s.free - count ≤ t.free := by
  unfold allocate at h
  split at h
  · cases h
  · split at h
    · cases h
      exact Nat.sub_le _ _
    · cases h
      rw [free_foldl_take]
      exact Nat.sub_le_sub_left (length_choose_le s count) _

end FreeSpace

end FileDirectory
