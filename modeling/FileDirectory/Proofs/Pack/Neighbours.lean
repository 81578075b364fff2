/-
**One free region at a time.**

The free regions of a pack stand in order and do not touch.  So it takes a look at one of them to say
whether the tracks of a region are all free, and at one to say whether some of them are: the last one
that begins before a certain track.  And gathering, which goes through the free regions in the order of
their size, comes to the same as taking from the largest region that is left, again and again.

Main definitions:

* `FileDirectory.FreeSpace.before?` — the last free region that begins before a track;
* `FileDirectory.FreeSpace.largest?` — the largest free region, of equals the lowest;
* `FileDirectory.FreeSpace.collect` — takes from the largest region that is left, again and again.

Main results:

* `FileDirectory.FreeSpace.Sound.claim_eq`, `FileDirectory.FreeSpace.Sound.release_eq` — one free
  region decides whether a region is claimed or taken back;
* `FileDirectory.FreeSpace.Sound.collect_eq` — taking from the largest region that is left is gathering;
* `FileDirectory.FreeSpace.Sound.allocate_eq_collect` — so an allocation that no region is large enough
  for takes what is collected.
-/

import FileDirectory.Proofs.Pack.Fewest

set_option autoImplicit false

namespace FileDirectory

namespace FreeSpace

variable {s : FreeSpace} {r : Region}

/-! ### The region that decides -/

/-- The last free region that begins before a track. -/
def before? (s : FreeSpace) (track : Nat) : Option Region :=
  (s.regions.filter fun f => f.first < track).getLast?

/-- It is a free region, and all others that begin before the track end before it begins. -/
theorem Sound.of_before? (h : Sound s) {track : Nat} {f : Region} (hf : s.before? track = some f) :
    f ∈ s.regions ∧ f.first < track ∧
      ∀ g ∈ s.regions, g.first < track → g = f ∨ g.limit < f.first := by
  obtain ⟨others, hsplit⟩ := List.getLast?_eq_some_iff.1 hf
  have hmem : f ∈ s.regions.filter fun f => f.first < track := by
    rw [hsplit]
    exact List.mem_append_right _ (List.mem_singleton_self f)
  obtain ⟨hin, hlt⟩ := List.mem_filter.1 hmem
  refine ⟨hin, of_decide_eq_true hlt, fun g hg hglt => ?_⟩
  have hapart : (s.regions.filter fun f => f.first < track).Pairwise fun f g => f.limit < g.first :=
    h.separated.apart.sublist List.filter_sublist
  have hgmem : g ∈ s.regions.filter fun f => f.first < track :=
    List.mem_filter.2 ⟨hg, decide_eq_true hglt⟩
  rw [hsplit] at hapart hgmem
  rcases List.mem_append.1 hgmem with hbefore | hself
  · exact Or.inr ((List.pairwise_append.1 hapart).2.2 g hbefore f (List.mem_singleton_self f))
  · exact Or.inl (List.mem_singleton.1 hself)

theorem before?_eq_none {track : Nat} (h : s.before? track = none) :
    ∀ f ∈ s.regions, track ≤ f.first := by
  intro f hf
  rw [before?, List.getLast?_eq_none_iff, List.filter_eq_nil_iff] at h
  simpa using h f hf

/-- What passes from free regions to those behind them holds of one that begins before a track exactly
if it holds of the last one. -/
theorem Sound.any_eq (h : Sound s) (track : Nat) {p : Region → Bool}
    (hp : ∀ f ∈ s.regions, ∀ g ∈ s.regions, g.first < track → f.limit < g.first →
      p f = true → p g = true) :
    (s.regions.any fun f => f.first < track && p f) = (s.before? track).any p := by
  cases hbefore : s.before? track with
  | none =>
      rw [Option.any_none, List.any_eq_false]
      intro f hf
      simp [Nat.not_lt.2 (before?_eq_none hbefore f hf)]
  | some g =>
      obtain ⟨hg, hglt, hlast⟩ := h.of_before? hbefore
      rw [Option.any_some, Bool.eq_iff_iff, List.any_eq_true]
      constructor
      · rintro ⟨f, hf, hholds⟩
        rw [Bool.and_eq_true, decide_eq_true_eq] at hholds
        rcases hlast f hf hholds.1 with rfl | hlt
        · exact hholds.2
        · exact hp f hf g hg hglt hlt hholds.2
      · intro hholds
        exact ⟨g, hg, by rw [hholds, Bool.and_true, decide_eq_true hglt]⟩

/-- **Whether a region is claimed** is decided by the last free region that begins no later. -/
theorem Sound.claim_eq (h : Sound s) (hr : 0 < r.count) :
    s.claim r =
      if (s.before? (r.first + 1)).any fun f => r.limit ≤ f.limit then (true, s.take r)
      else (false, s) := by
  have hlimit : r.limit = r.first + r.count := rfl
  -- a region that ends behind this one leaves no room for another one that begins before it
  have hany := h.any_eq (r.first + 1) fun f _ g _ hgfirst hlt hf => (by
    rw [decide_eq_true_eq] at hf
    omega : decide (r.limit ≤ g.limit) = true)
  simp only [Nat.lt_succ_iff] at hany
  rw [claim, if_neg (Nat.ne_of_gt hr), hany]

/-- **Whether a region is taken back** is decided by the last free region that begins before its end. -/
theorem Sound.release_eq (h : Sound s) (hr : 0 < r.count) :
    s.release r =
      if s.capacity < r.limit then (false, s)
      else if (s.before? r.limit).any fun f => r.first < f.limit then (false, s)
      else (true, { s with free := s.free + r.count, regions := join r s.regions }) := by
  -- a region behind one that ends behind the beginning of this one does so too
  have hany := h.any_eq r.limit fun f _ g hg _ hlt hf => (by
    have hlimit : g.limit = g.first + g.count := rfl
    rw [decide_eq_true_eq] at hf ⊢
    omega : decide (r.first < g.limit) = true)
  rw [release, if_neg (Nat.ne_of_gt hr), hany]

/-! ### The largest region that is left -/

/-- The largest free region, of equals the lowest. -/
def largest? (s : FreeSpace) : Option Region :=
  s.regions.find? fun f => s.regions.all fun g => gathersBefore f g

/-- Takes from the largest free region that is left until there are as many tracks as are wanted, in no
more than the given number of rounds; also says what was taken. -/
def collect (s : FreeSpace) : Nat → Nat → List Region × FreeSpace
  | 0, _ => ([], s)
  | rounds + 1, wanted =>
    if wanted = 0 then ([], s)
    else
      match s.largest? with
      | none => ([], s)
      | some f =>
        let r : Region := ⟨f.first, min f.count wanted⟩
        let (regions, t) := (s.take r).collect rounds (wanted - r.count)
        (r :: regions, t)

theorem eq_of_gathersBefore {f g : Region} (hfg : gathersBefore f g = true)
    (hgf : gathersBefore g f = true) : f = g := by
  rw [gathersBefore_iff] at hfg hgf
  have hflimit : f.limit = f.first + f.count := rfl
  have hglimit : g.limit = g.first + g.count := rfl
  exact Region.eq_of_limit_eq (by omega) (by omega)

theorem largest?_eq_some {f : Region} (hf : f ∈ s.regions)
    (hall : ∀ g ∈ s.regions, gathersBefore f g = true) : s.largest? = some f := by
  unfold largest?
  cases hfind : s.regions.find? fun f => s.regions.all fun g => gathersBefore f g with
  | none =>
      have hnot := List.find?_eq_none.1 hfind f hf
      exact absurd (List.all_eq_true.2 hall) hnot
  | some g =>
      have hmax := List.find?_some hfind
      have hgf := List.all_eq_true.1 hmax f hf
      rw [eq_of_gathersBefore hgf (hall g (List.mem_of_find?_eq_some hfind))]

/-- When a whole free region is taken, the others are left. -/
theorem perm_carve_self {regions : List Region} (h : Separated regions) {f : Region}
    (hf : f ∈ regions) : (f :: carve f regions).Perm regions := by
  induction regions with
  | nil => cases hf
  | cons g gs ih =>
      have hpos := h.nonempty f hf
      have hlimit : f.limit = f.first + f.count := rfl
      rw [carve]
      rcases List.mem_cons.1 hf with rfl | hf
      · rw [if_pos (by omega)]
        simp [remainder]
      · have hlt := h.head_lt hf
        rw [if_neg (by omega)]
        exact (List.Perm.swap g f _).trans ((ih h.tail hf).cons g)

@[simp] theorem gather_zero (regions : List Region) : gather 0 regions = [] := by
  cases regions <;> simp [gather]

@[simp] theorem collect_zero (s : FreeSpace) (rounds : Nat) : s.collect rounds 0 = ([], s) := by
  cases rounds <;> simp [collect]

/-- **Taking from the largest region that is left is gathering.** -/
theorem Sound.collect_eq (h : Sound s) {rounds wanted : Nat} (hle : wanted ≤ rounds) :
    s.collect rounds wanted =
      (gather wanted (s.regions.mergeSort gathersBefore),
        (gather wanted (s.regions.mergeSort gathersBefore)).foldl FreeSpace.take s) := by
  induction rounds generalizing s wanted with
  | zero => simp [Nat.le_zero.1 hle]
  | succ rounds ih =>
      by_cases hzero : wanted = 0
      · simp [hzero]
      have hperm := List.mergeSort_perm s.regions gathersBefore
      have hsorted := pairwise_gathersBefore s.regions
      rw [collect, if_neg hzero]
      generalize s.regions.mergeSort gathersBefore = sorted at hperm hsorted
      cases sorted with
      | nil =>
          have hnone : s.largest? = none := by
            rw [largest?, List.nil_perm.1 hperm, List.find?_nil]
          rw [hnone]
          rfl
      | cons f fs =>
          obtain ⟨hbefore, hrest⟩ := List.pairwise_cons.1 hsorted
          have hf : f ∈ s.regions := hperm.mem_iff.1 List.mem_cons_self
          have hpos := h.separated.nonempty f hf
          have hlargest : s.largest? = some f := by
            refine largest?_eq_some hf fun g hg => ?_
            rcases List.mem_cons.1 (hperm.mem_iff.2 hg) with rfl | hg
            · exact gathersBefore_iff.2 (Or.inr ⟨rfl, Nat.le_refl _⟩)
            · exact hbefore g hg
          rw [hlargest, gather, if_neg hzero]
          dsimp only
          by_cases hlt : f.count < wanted
          · -- the whole region is taken, and the others are left in their order
            have hwhole : (⟨f.first, min f.count wanted⟩ : Region) = f := by
              rw [Nat.min_eq_left (Nat.le_of_lt hlt)]
            have hothers : (carve f s.regions).mergeSort gathersBefore = fs := by
              refine List.Perm.eq_of_pairwise (fun g r _ _ => eq_of_gathersBefore)
                (pairwise_gathersBefore _) hrest ?_
              refine (List.mergeSort_perm _ _).trans ((List.perm_cons f).1 ?_)
              exact (perm_carve_self h.separated hf).trans hperm.symm
            obtain ⟨hsound, -⟩ := h.take hpos fun track htrack => mem_tracksIn.2 ⟨f, hf, htrack⟩
            have hcollect := ih hsound (by omega : wanted - f.count ≤ rounds)
            have hregions : (s.take f).regions = carve f s.regions := rfl
            rw [hregions, hothers] at hcollect
            rw [hwhole, Nat.min_eq_left (Nat.le_of_lt hlt), hcollect, List.foldl_cons]
          · rw [Nat.min_eq_right (Nat.not_lt.1 hlt), Nat.sub_self]
            simp

/-- Regions that are taken one after another may be taken in any order. -/
theorem Sound.foldl_take_perm (h : Sound s) {regions order : List Region} (horder : order.Perm regions)
    (hpos : ∀ r ∈ regions, 0 < r.count) (hnodup : (tracksIn regions).Nodup)
    (hsub : ∀ track ∈ tracksIn regions, track ∈ tracksIn s.regions) :
    order.foldl FreeSpace.take s = regions.foldl FreeSpace.take s := by
  have htracks := tracksIn_perm horder
  obtain ⟨hsound, hcapacity, hperm⟩ := h.foldl_take hpos hnodup hsub
  obtain ⟨hsound', hcapacity', hperm'⟩ := h.foldl_take
    (fun r hr => hpos r (horder.mem_iff.1 hr)) (htracks.nodup_iff.2 hnodup)
    fun track htrack => hsub track (htracks.mem_iff.1 htrack)
  refine hsound'.eq_of_perm hsound (hcapacity'.trans hcapacity.symm) ?_
  refine (List.perm_append_left_iff (tracksIn order)).1 (hperm'.symm.trans (hperm.trans ?_))
  exact htracks.symm.append_right _

/-- **An allocation that no free region is large enough for** takes what is collected, in ascending
order. -/
theorem Sound.allocate_eq_collect (h : Sound s) {count : Nat} (hpos : 0 < count)
    (hfree : count ≤ s.free) (hsingle : s.single count = none) :
    s.allocate count = some
      ((s.collect count count).1.mergeSort fun f g => f.first ≤ g.first,
        (s.collect count count).2) := by
  have hhands := h.hands (allocate_of_le hpos hfree)
  have hsub : ∀ track ∈ tracksIn (s.choose count), track ∈ tracksIn s.regions := by
    intro track htrack
    obtain ⟨r, hr, hin⟩ := mem_tracksIn.1 htrack
    exact mem_tracks.1 (hhands.free r hr track hin)
  have horder : (gather count (s.regions.mergeSort gathersBefore)).Perm (s.choose count) := by
    rw [choose_of_none hsingle]
    exact (List.mergeSort_perm _ _).symm
  rw [allocate_of_le hpos hfree, h.collect_eq (Nat.le_refl count),
    h.foldl_take_perm horder hhands.nonempty hhands.supplies.nodup hsub, choose_of_none hsingle]

end FreeSpace

end FileDirectory
