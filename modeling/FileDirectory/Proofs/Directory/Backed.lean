/-
**An allocation does exactly what was asked.**

A region of file tracks is refused for the first of a few reasons that can be read off the catalog
beforehand.  A region that is not refused is backed by pack tracks: no track that was mapped moves, no
track outside the region is mapped, and the pack gives as many tracks as were needed.  An allocation
that the pack could not complete once it was begun does not occur.

Main definitions:

* `FileDirectory.Catalog.allocationRefusal?` — what stands in the way of an allocation.

Main results:

* `FileDirectory.Catalog.allocationRefusal?_of_ok`, `FileDirectory.Catalog.allocationRefusal?_of_error`
  — the checks of an allocation find it;
* `FileDirectory.Directory.allocateTracks_of_reached` — what an allocation does in every state.
-/

import FileDirectory.Proofs.Catalog.Partition
import FileDirectory.Proofs.Catalog.Turn
import FileDirectory.Proofs.Directory.Granules
import FileDirectory.Proofs.Directory.Refused
import FileDirectory.Proofs.Pack.Mapping

set_option autoImplicit false

namespace FileDirectory

namespace Catalog

/-! ### What stands in the way -/

/-- What stands in the way of backing a region of a cycle for a client, in the order in which it is
looked for. -/
def allocationRefusal? (c : Catalog) (client : Client) (file : FileId) (first count : Nat) :
    Option Failure.Kind :=
  match c.cycle? file with
  | none => some .notFound
  | some cycle =>
    if cycle.item.fileType ≠ .massStorage then some .wrongFileType
    else if cycle.held client = 0 then some .notAssigned
    else if count = 0 ∨ Word.maxValue < first + count then some .invalidRequest
    else if cycle.item.maxGranules <
        (first + count) ⌈/⌉ c.config.tracksPerGranule cycle.item.characteristics.granularity ∨
        c.space.free < (cycle.item.table.unmapped ⟨first, count⟩).length then
      some .quotaExceeded
    else none

variable {c : Catalog} {call : Call}

section Tracks

variable {file : FileId} {first count : Nat} {cycle : FileCycle}

/-- What a check of the tracks complains of stands in the way of an allocation. -/
theorem allocationRefusal?_of_tracks_error (hcycle : c.cycle? file = some cycle) {f : Failure}
    (h : checkTracks call cycle first count = .error f) :
    c.allocationRefusal? call.client file first count = some f.kind := by
  rw [allocationRefusal?, hcycle]
  dsimp only
  unfold checkTracks at h
  split at h
  · rename_i htype
    cases h
    exact if_pos htype
  rename_i htype
  rw [if_neg htype]
  split at h
  · rename_i hheld
    cases h
    exact if_pos hheld
  rename_i hheld
  rw [if_neg hheld]
  split at h
  · rename_i hrange
    cases h
    exact if_pos hrange
  · cases h

/-- Where the tracks pass their check, only a quota stands in the way of an allocation. -/
theorem allocationRefusal?_of_addressable (hcycle : c.cycle? file = some cycle)
    (hheld : cycle.held call.client ≠ 0) (hregion : Addressable cycle ⟨first, count⟩) :
    c.allocationRefusal? call.client file first count =
      if cycle.item.maxGranules <
          (first + count) ⌈/⌉ c.config.tracksPerGranule cycle.item.characteristics.granularity ∨
          c.space.free < (cycle.item.table.unmapped ⟨first, count⟩).length then
        some .quotaExceeded
      else none := by
  have hrange : ¬(count = 0 ∨ Word.maxValue < first + count) :=
    not_or.2 ⟨Nat.ne_of_gt hregion.nonempty, Nat.not_lt.2 hregion.limit_le⟩
  rw [allocationRefusal?, hcycle]
  dsimp only
  rw [if_neg (not_not_intro hregion.fileType), if_neg hheld, if_neg hrange]

end Tracks

/-- An allocation that passes its checks has nothing in its way. -/
theorem allocationRefusal?_of_ok (hc : c.Indexed)
    (hpos : ∀ granularity, 0 < c.config.tracksPerGranule granularity)
    (htables : ∀ set ∈ c.sets, ∀ cycle ∈ set.cycles, cycle.item.table.Canonical)
    {file : FileId} {first count : Nat} {a : Allocation}
    (h : c.checkAllocation call file first count = .ok a) :
    c.allocationRefusal? call.client file first count = none := by
  obtain ⟨hset, hcycle, rfl, hheld, hfree, hregion, hgaps, hgranules, hmax⟩ := checkAllocation_eq_ok h
  rw [hgaps, ((htables _ hset _ hcycle).gaps_perm_unmapped _).length_eq] at hfree
  rw [hgranules, granulesUpTo_eq (hpos _)] at hmax
  change (first + count) ⌈/⌉ _ ≤ _ at hmax
  rw [allocationRefusal?_of_addressable (cycle?_of_mem hc hset hcycle) hheld hregion,
    if_neg (not_or.2 ⟨Nat.not_lt.2 hmax, Nat.not_lt.2 hfree⟩)]

/-- What a check of an allocation complains of stands in its way. -/
theorem allocationRefusal?_of_error (hc : c.Indexed)
    (hpos : ∀ granularity, 0 < c.config.tracksPerGranule granularity)
    (htables : ∀ set ∈ c.sets, ∀ cycle ∈ set.cycles, cycle.item.table.Canonical)
    (htime : call.expired 1 = false) {file : FileId} {first count : Nat} {f : Failure}
    (h : c.checkAllocation call file first count = .error f) :
    c.allocationRefusal? call.client file first count = some f.kind := by
  have htime₀ := Call.expired_eq_false_of_le (Nat.zero_le 1) htime
  simp only [checkAllocation, Call.check_of_expired htime₀, Call.check_of_expired htime, bind_eq_error,
    ite_throw_eq_error] at h
  obtain h | ⟨-, -, h⟩ := h
  · cases h
  obtain h | ⟨⟨set, cycle⟩, hfound, h⟩ := h
  · obtain ⟨hnone, rfl⟩ := locate_eq_error h
    rw [allocationRefusal?, cycle?, hnone]
    rfl
  obtain ⟨hset, hcycle, rfl⟩ := locate_eq_ok hfound
  dsimp only at h hset hcycle
  have hcycle? := cycle?_of_mem hc hset hcycle
  obtain h | ⟨region, htracks, h⟩ := h
  · exact allocationRefusal?_of_tracks_error hcycle? h
  obtain ⟨hheld, rfl, hregion⟩ := checkTracks_eq_ok htracks
  have hgaps := ((htables _ hset _ hcycle).gaps_perm_unmapped ⟨first, count⟩).length_eq
  rw [allocationRefusal?_of_addressable hcycle? hheld hregion]
  rw [← length_tracksIn, hgaps, granulesUpTo_eq (hpos _)] at h
  change (_ < (first + count) ⌈/⌉ _ ∧ _) ∨ _ at h
  obtain ⟨hmax, rfl⟩ | ⟨-, h⟩ := h
  · exact if_pos (Or.inl hmax)
  obtain h | ⟨-, -, h⟩ := h
  · cases h
  obtain ⟨hfree, rfl⟩ | ⟨-, h⟩ := h
  · exact if_pos (Or.inr hfree)
  · cases h

end Catalog

namespace Directory

open Catalog ExtentTable

variable {config : Configuration} {d : Directory} {call : Call}

/-! ### Allocations -/

/-- In every state the pack is divided among the cycles and the free space. -/
theorem partitioned_of_reached (h : Reached (Made config) d) :
    d.catalog.Indexed ∧ d.catalog.config = config ∧ d.catalog.Partitioned := by
  refine h.induction (P := fun c => c.config = config ∧ c.Partitioned) ?_ ?_
  · intro d hmade
    rw [hmade.catalog_eq]
    exact ⟨indexed_empty config, rfl, partitioned_empty config⟩
  · rintro call c set space last hc ⟨rfl, hpartitioned⟩ hs
    exact ⟨config_put _ _, hs.partitioned hpartitioned hc⟩

section Made

variable (hconfig : 1 ≤ config.tracksPerPosition) (h : Reached (Made config) d)
include hconfig h

/-- An allocation fails by what stands in its way. -/
theorem allocationRefusal?_of_reached (htime : call.expired 1 = false) (file : FileId)
    (first count : Nat) :
    d.catalog.allocationRefusal? call.client file first count =
      match d.catalog.allocateTracks call file first count with
      | .error halted => some halted.failure.kind
      | .ok _ => none := by
  obtain ⟨hindexed, rfl, hpartitioned⟩ := partitioned_of_reached h
  have hpos := tracksPerGranule_pos hconfig
  have htables : ∀ set ∈ d.catalog.sets, ∀ cycle ∈ set.cycles, cycle.item.table.Canonical :=
    fun set hset cycle hcycle => (hpartitioned.tables set hset cycle hcycle).canonical
  cases houtcome : d.catalog.allocateTracks call file first count with
  | error halted =>
      obtain ⟨f, hcheck, rfl⟩ := allocateTracks_eq_error houtcome
      exact allocationRefusal?_of_error hindexed hpos htables htime hcheck
  | ok change =>
      cases hcheck : d.catalog.checkAllocation call file first count with
      | ok a => exact allocationRefusal?_of_ok hindexed hpos htables hcheck
      | error f =>
          rw [Catalog.allocateTracks, hcheck] at houtcome
          cases houtcome

/-- An allocation in whose way something stands. -/
theorem refused_of_reached (htime : call.expired 1 = false) {file : FileId} {first count : Nat}
    {kind : Failure.Kind}
    (hsome : d.catalog.allocationRefusal? call.client file first count = some kind) :
    ∃ f, d.allocateTracks call file first count = (.error f, d) ∧ f.kind = kind := by
  rw [allocationRefusal?_of_reached hconfig h htime] at hsome
  rw [allocateTracks_eq]
  cases houtcome : d.catalog.allocateTracks call file first count with
  | error halted =>
      rw [houtcome] at hsome
      exact ⟨halted.failure, rfl, Option.some.inj hsome⟩
  | ok change =>
      rw [houtcome] at hsome
      cases hsome

/-- An allocation in whose way nothing stands. -/
theorem backs_of_reached (htime : call.expired 1 = false) {file : FileId} {first count : Nat}
    (hnone : d.catalog.allocationRefusal? call.client file first count = none) :
    (∀ f, (d.allocateTracks call file first count).1 = .error f → f.kind = .mediumIo) ∧
      ∃ cycle after, d.catalog.cycle? file = some cycle ∧
        (d.allocateTracks call file first count).2.catalog.cycle? file = some after ∧
        Backs after.item.table cycle.item.table ⟨first, count⟩ ∧
        (d.allocateTracks call file first count).2.freeTracks +
          (cycle.item.table.unmapped ⟨first, count⟩).length = d.freeTracks ∧
        ∀ other ≠ file, (d.allocateTracks call file first count).2.catalog.cycle? other =
          d.catalog.cycle? other := by
  obtain ⟨hindexed, -, hpartitioned⟩ := partitioned_of_reached h
  rw [allocationRefusal?_of_reached hconfig h htime] at hnone
  cases houtcome : d.catalog.allocateTracks call file first count with
  | error halted =>
      rw [houtcome] at hnone
      cases hnone
  | ok change =>
      have hperform : d.allocateTracks call file first count = d.perform (.ok change) := by
        rw [Directory.allocateTracks, houtcome]
      rw [hperform]
      refine ⟨fun f hf => kind_of_perform hf, ?_⟩
      have hafter := (steps_allocateTracks houtcome).indexed hindexed
      obtain ⟨set, hset, cycle, hcycle, rfl, -, space, table, -, -, hfill, rfl⟩ :=
        allocateTracks_eq_ok houtcome
      obtain ⟨hbacks, hfree⟩ := fill_backs hpartitioned.sound
        (hpartitioned.tables set hset cycle hcycle).canonical hfill
      have hcycles := cycle?_put_modify hindexed hafter hset rfl hcycle rfl rfl
      unfold freeTracks
      rw [catalog_perform_ok]
      refine ⟨cycle, _, cycle?_of_mem hindexed hset hcycle, (hcycles _).trans (if_pos rfl), hbacks, ?_,
        fun other hother => (hcycles _).trans (if_neg hother)⟩
      rw [space_put]
      exact hfree

/-- **An allocation does exactly what was asked**, in every state of a directory that was made empty
with at least one track in a position.  If something stands in its way, it fails by that and leaves
everything as it was.  Otherwise it fails at most because the medium cannot be brought up to date, and
the region is backed in any case: no track that was mapped moves, no other is mapped, as many tracks
are taken from the pack as were not mapped before, and backing the region again takes none. -/
theorem allocateTracks_of_reached (htime : call.expired 1 = false) (file : FileId)
    (first count : Nat) :
    (∀ kind, d.catalog.allocationRefusal? call.client file first count = some kind →
      ∃ f, d.allocateTracks call file first count = (.error f, d) ∧ f.kind = kind) ∧
    (d.catalog.allocationRefusal? call.client file first count = none →
      ∃ answer d', d.allocateTracks call file first count = (answer, d') ∧
        (∀ f, answer = .error f → f.kind = .mediumIo) ∧
        (∃ cycle after, d.catalog.cycle? file = some cycle ∧ d'.catalog.cycle? file = some after ∧
          Backs after.item.table cycle.item.table ⟨first, count⟩ ∧
          d'.freeTracks + (cycle.item.table.unmapped ⟨first, count⟩).length = d.freeTracks) ∧
        (∀ other ≠ file, d'.catalog.cycle? other = d.catalog.cycle? other) ∧
        ∀ again : Call, again.expired 1 = false →
          (d'.allocateTracks again file first count).2.freeTracks = d'.freeTracks) := by
  refine ⟨fun kind => refused_of_reached hconfig h htime, fun hnone => ?_⟩
  obtain ⟨hanswer, cycle, after, hcycle, hafter, hbacks, hfree, hothers⟩ :=
    backs_of_reached hconfig h htime hnone
  have hreached : Reached (Made config) (d.allocateTracks call file first count).2 :=
    h.handle call (.allocateTracks file first count)
  refine ⟨(d.allocateTracks call file first count).1, (d.allocateTracks call file first count).2, rfl,
    hanswer, ⟨cycle, after, hcycle, hafter, hbacks, hfree⟩, hothers, fun again hagain => ?_⟩
  cases hsecond : (d.allocateTracks call file first count).2.catalog.allocationRefusal?
      again.client file first count with
  | some kind =>
      obtain ⟨f, heq, -⟩ := refused_of_reached hconfig hreached hagain hsecond
      rw [heq]
  | none =>
      obtain ⟨-, again', -, hagain', -, -, htaken, -⟩ :=
        backs_of_reached hconfig hreached hagain hsecond
      obtain rfl : after = again' := Option.some.inj (hafter.symm.trans hagain')
      rw [hbacks.unmapped_eq_nil] at htaken
      exact htaken

end Made

/-- Of the tracks 2 to 11 of the file in positions six are taken from the pack; the tracks up to 20 are
one position too many. -/
theorem allocateTracks_of_reached_positioned :
    positioned.catalog.allocationRefusal? ⟨1, "RUN1", "USER"⟩ ⟨1⟩ 2 19 = some .quotaExceeded ∧
      (∃ f, positioned.allocateTracks ⟨⟨1, "RUN1", "USER"⟩, 8, none⟩ ⟨1⟩ 2 19 =
        (.error f, positioned) ∧ f.kind = .quotaExceeded) ∧
      positioned.catalog.allocationRefusal? ⟨1, "RUN1", "USER"⟩ ⟨1⟩ 2 10 = none ∧
      ∃ cycle after, positioned.catalog.cycle? ⟨1⟩ = some cycle ∧
        cycle.item.table.unmapped ⟨2, 10⟩ = [4, 5, 6, 7, 8, 11] ∧
        (positioned.allocateTracks ⟨⟨1, "RUN1", "USER"⟩, 8, none⟩ ⟨1⟩ 2 10).2.catalog.cycle? ⟨1⟩ =
          some after ∧
        Backs after.item.table cycle.item.table ⟨2, 10⟩ := by
  have hreached : Reached (Made { tracksPerPosition := 4 }) positioned :=
    reached_after (.start (Or.inl rfl)) _
  have hrefused : positioned.catalog.allocationRefusal? ⟨1, "RUN1", "USER"⟩ ⟨1⟩ 2 19 =
      some .quotaExceeded := by decide +kernel
  have hgranted : positioned.catalog.allocationRefusal? ⟨1, "RUN1", "USER"⟩ ⟨1⟩ 2 10 = none := by
    decide +kernel
  have htime : Call.expired ⟨⟨1, "RUN1", "USER"⟩, 8, none⟩ 1 = false := rfl
  obtain ⟨hrefusal, -⟩ := allocateTracks_of_reached (by decide) hreached htime ⟨1⟩ 2 19
  obtain ⟨-, hbacking⟩ := allocateTracks_of_reached (by decide) hreached htime ⟨1⟩ 2 10
  obtain ⟨_, _, heq, -, ⟨cycle, after, hcycle, hafter, hbacks, -⟩, -⟩ := hbacking hgranted
  refine ⟨hrefused, hrefusal _ hrefused, hgranted, cycle, after, hcycle, ?_, ?_, hbacks⟩
  · have hall : (positioned.catalog.cycle? ⟨1⟩).map (fun cycle => cycle.item.table.unmapped ⟨2, 10⟩) =
        some [4, 5, 6, 7, 8, 11] := by decide +kernel
    rw [hcycle] at hall
    exact Option.some.inj hall
  · rw [heq]
    exact hafter

end Directory

end FileDirectory
