/-
**Room for the records.**

A set whose records do not all have a sector is given the sectors that it lacks from the free ones.
If there are as many free sectors as are lacking, no complaint about space arises, and if no attempt at
writing fails meanwhile recording the set succeeds.  It then lacks none.

Main definitions:

* `FileDirectory.SectorMap.spare` — how many sectors are free;
* `FileDirectory.Placement.missing`, `FileDirectory.Store.missing` — how many sectors a file set lacks,
  and all file sets.

Main results:

* `FileDirectory.Store.stage_of_spare` — with enough free sectors there is no shortage;
* `FileDirectory.Store.record_of_spare` — what recording a file set then comes to;
* `FileDirectory.Store.room_record` — room for all file sets lasts.
-/

import FileDirectory.Proofs.Catalog.Divided
import FileDirectory.Proofs.Store.Recorded
import Mathlib.Algebra.BigOperators.Group.List.Basic
import Mathlib.Algebra.GroupWithZero.Nat

set_option autoImplicit false

namespace FileDirectory

/-! ### Free sectors -/

namespace SectorMap

variable {inUse : SectorMap}

/-- How many sectors are free. -/
def spare (inUse : SectorMap) : Nat := inUse.count false

/-- Taking a free sector into use leaves one less. -/
theorem spare_set {sector : Nat} (h : inUse[sector]? = some false) :
    spare (inUse.set sector true) + 1 = inUse.spare := by
  obtain ⟨hlt, hfree⟩ := List.getElem?_eq_some_iff.1 h
  have hpos : 0 < inUse.count false := List.count_pos_iff.2 (List.mem_of_getElem? h)
  unfold spare
  rw [List.count_set hlt, hfree]
  simp
  omega

/-- As long as a sector is free there is a lowest one. -/
theorem lowestFree_of_spare (h : 0 < inUse.spare) :
    ∃ sector, inUse.lowestFree = some sector := by
  rw [spare, List.count_pos_iff] at h
  refine Option.isSome_iff_exists.1 ?_
  rw [lowestFree, List.findIdx?_isSome, List.any_eq_true]
  exact ⟨false, h, rfl⟩

/-- A claim for no more sectors than are free is met. -/
theorem claim_of_spare {count : Nat} (h : count ≤ inUse.spare) :
    (claim count inUse).1.length = count ∧ spare (claim count inUse).2 + count = inUse.spare := by
  induction count generalizing inUse with
  | zero => exact ⟨rfl, rfl⟩
  | succ count ih =>
      obtain ⟨sector, hsector⟩ := lowestFree_of_spare (Nat.lt_of_lt_of_le (Nat.succ_pos count) h)
      have hset := spare_set (lowestFree_eq_some hsector)
      have hleft : count ≤ spare (inUse.set sector true) := by omega
      obtain ⟨hlength, hspare⟩ := ih hleft
      rw [claim, hsector]
      dsimp only
      rw [List.length_cons, hlength]
      exact ⟨rfl, by omega⟩

/-- Freeing sectors leaves no fewer free. -/
theorem spare_le_release (sectors : List Nat) : inUse.spare ≤ spare (inUse.release sectors) := by
  unfold release
  induction sectors generalizing inUse with
  | nil => exact Nat.le_refl _
  | cons sector sectors ih =>
      refine Nat.le_trans ?_ ih
      change inUse.count false ≤ (inUse.set sector false).count false
      rcases Nat.lt_or_ge sector inUse.length with hlt | hge
      · rw [List.count_set hlt]
        cases inUse[sector] with
        | false =>
            change inUse.count false ≤ inUse.count false - 1 + 1
            omega
        | true => simp
      · have hsame : inUse.set sector false = inUse := List.set_eq_of_length_le hge
        exact Nat.le_of_eq (congrArg (List.count false) hsame.symm)

end SectorMap

/-! ### Missing sectors -/

/-- How many sectors a file set lacks for its records. -/
def Placement.missing (p : Placement) (set : FileSet) : Nat :=
  (if p.lead = none then 1 else 0) +
    (set.cycles.map fun c => c.item.sectorsNeeded - (p.sectorsOf c.file).length).sum

namespace Staging

variable {s : Staging}

/-- The lead record of a set goes to the sector that it has, or takes a free one. -/
theorem lead_of_spare (set : FileSet) (sector : Option Nat)
    (h : (if sector = none then 1 else 0) ≤ s.inUse.spare) :
    (s.lead set sector).2.shortages = s.shortages ∧
      (s.lead set sector).2.inUse.spare + (if sector = none then 1 else 0) = s.inUse.spare := by
  cases sector with
  | some l => exact ⟨rfl, rfl⟩
  | none =>
      obtain ⟨l, hl⟩ := SectorMap.lowestFree_of_spare h
      unfold lead
      rw [hl]
      exact ⟨rfl, SectorMap.spare_set (SectorMap.lowestFree_eq_some hl)⟩

/-- The records of a cycle go to the sectors that it has, and take free ones. -/
theorem cycle_of_spare (file : FileId) (item : MainItem) (sectors : List Nat)
    (h : item.sectorsNeeded - sectors.length ≤ s.inUse.spare) :
    (s.cycle file item sectors).2.shortages = s.shortages ∧
      (s.cycle file item sectors).2.inUse.spare + (item.sectorsNeeded - sectors.length) =
        s.inUse.spare := by
  obtain ⟨hlength, hspare⟩ := SectorMap.claim_of_spare h
  have henough : ¬(sectors ++ (SectorMap.claim (item.sectorsNeeded - sectors.length)
      s.inUse).1).length < item.sectorsNeeded := by
    rw [List.length_append, hlength]
    omega
  unfold cycle
  dsimp only
  rw [if_neg henough]
  exact ⟨rfl, hspare⟩

/-- So do the records of several cycles. -/
theorem cycles_of_spare (p : Placement) (items : List (FileId × MainItem))
    (h : (items.map fun entry => entry.2.sectorsNeeded - (p.sectorsOf entry.1).length).sum ≤
      s.inUse.spare) :
    (s.cycles p items).2.shortages = s.shortages ∧
      (s.cycles p items).2.inUse.spare +
        (items.map fun entry => entry.2.sectorsNeeded - (p.sectorsOf entry.1).length).sum =
          s.inUse.spare := by
  induction items generalizing s with
  | nil => exact ⟨rfl, rfl⟩
  | cons entry items ih =>
      rw [List.map_cons, List.sum_cons] at h ⊢
      obtain ⟨hshortages, hspare⟩ :=
        s.cycle_of_spare entry.1 entry.2 (p.sectorsOf entry.1) (by omega)
      obtain ⟨hshortages', hspare'⟩ :=
        ih (s := (s.cycle entry.1 entry.2 (p.sectorsOf entry.1)).2) (by omega)
      exact ⟨hshortages'.trans hshortages, by rw [cycles]; dsimp only; omega⟩

end Staging

/-! ### Staging a file set -/

namespace Store

variable {s : Store}

/-- A file set that lacks no more sectors than are free is not short of space. -/
theorem stageSet_of_spare (staging : Staging) {set : FileSet} {p : Placement}
    (h : p.missing set ≤ staging.inUse.spare) :
    (s.stageSet staging set p).2.shortages = staging.shortages ∧
      (s.stageSet staging set p).2.inUse.spare + p.missing set = staging.inUse.spare := by
  have hitems : ((set.cycles.map fun c => (c.file, s.shown c)).map fun entry =>
      entry.2.sectorsNeeded - (p.sectorsOf entry.1).length) =
      set.cycles.map fun c => c.item.sectorsNeeded - (p.sectorsOf c.file).length := by
    rw [List.map_map]
    rfl
  unfold Placement.missing at h ⊢
  obtain ⟨hlead, hspare⟩ := staging.lead_of_spare set p.lead (by omega)
  obtain ⟨hcycles, hspare'⟩ := (staging.lead set p.lead).2.cycles_of_spare p
    (set.cycles.map fun c => (c.file, s.shown c)) (by rw [hitems]; omega)
  rw [hitems] at hspare'
  exact ⟨hcycles.trans hlead, by unfold stageSet; dsimp only; omega⟩

/-- **With enough free sectors there is no shortage**, and as many are taken as were lacking. -/
theorem stage_of_spare {name : SetName} {set? : Option FileSet}
    (h : ∀ set ∈ set?, (s.placement name).missing set ≤ s.inUse.spare) :
    (s.stage name set?).2.shortages = [] ∧
      s.inUse.spare ≤ (s.stage name set?).2.inUse.spare +
        (set?.map (s.placement name).missing).getD 0 := by
  cases set? with
  | none => exact ⟨rfl, Nat.le_refl _⟩
  | some set =>
      obtain ⟨hshortages, hspare⟩ := s.stageSet_of_spare (Staging.free { inUse := s.inUse }
        (((s.placement name).cycles.filter fun entry =>
          !((some set).any fun set => set.cycles.any fun c => c.file = entry.1)).flatMap Prod.snd))
        (h set rfl)
      exact ⟨hshortages, Nat.le_of_eq hspare.symm⟩

end Store

/-! ### Recording a file set -/

namespace Store

/-- A set all of whose records were placed lacks no sector. -/
theorem SetPlaced.missing_eq {s : Store} {set : FileSet} {p : Placement} {writes : List Write}
    (h : SetPlaced s set p writes) (hfiles : set.files.Nodup) : p.missing set = 0 := by
  obtain ⟨l, hl, -⟩ := h.lead
  have hnone : ∀ n ∈ set.cycles.map fun c => c.item.sectorsNeeded - (p.sectorsOf c.file).length,
      n = 0 := by
    intro n hn
    obtain ⟨c, hc, rfl⟩ := List.mem_map.1 hn
    obtain ⟨sectors, hin, hlength, -⟩ := h.records c hc
    have hsectors := Placement.sectorsOf_of_mem (h.files ▸ hfiles) hin
    rw [hsectors, hlength]
    exact Nat.sub_self _
  rw [Placement.missing, hl, if_neg (Option.some_ne_none l), Nat.zero_add]
  exact List.sum_eq_zero hnone

/-- Recording a file set makes an attempt at each staged write. -/
theorem attempts_record (s : Store) (name : SetName) (set? : Option FileSet) :
    (s.record name set?).1.device.attempts =
      s.device.attempts + (s.stage name set?).2.writes.length :=
  attempts_write _ _

/-- **Recording a file set** that lacks no more sectors than are free succeeds when no attempt at
writing fails.  It lacks none afterwards. -/
theorem record_of_spare {c c' : Catalog} {s : Store} (h : Keeps c s) (hc : c.Indexed)
    (hc' : c'.Indexed) {limit : Nat} (hworking : s.device.Working limit) {name : SetName}
    (hlimit : (s.record name (c'.find? name)).1.device.attempts ≤ limit)
    (hspare : ∀ set ∈ c'.find? name, (s.placement name).missing set ≤ s.inUse.spare) :
    (s.record name (c'.find? name)).2 = none ∧
      (s.record name (c'.find? name)).1.device.Working limit ∧
      s.inUse.spare ≤ (s.record name (c'.find? name)).1.inUse.spare +
        ((c'.find? name).map (s.placement name).missing).getD 0 ∧
      ∀ set ∈ c'.find? name,
        ((s.record name (c'.find? name)).1.placement name).missing set = 0 := by
  obtain ⟨hshortages, hstaged⟩ := s.stage_of_spare hspare
  rw [attempts_record] at hlimit
  obtain ⟨hfailures, hdevice⟩ := write_working hworking (h.sector_lt hc hc' name) hlimit
  refine ⟨?_, hdevice, ?_, ?_⟩
  · exact report_eq_none.2 ⟨hfailures, hshortages⟩
  · refine Nat.le_trans hstaged (Nat.add_le_add_right ?_ _)
    exact SectorMap.spare_le_release _
  · intro set hset
    obtain ⟨hin, rfl⟩ := (Catalog.find?_eq_some_iff hc'.ordered).1 hset
    obtain ⟨p, claimed, freed, writes, -, hentered⟩ := h.entered hc hc' hin
    rw [Option.mem_def] at hset
    rw [hset] at hshortages ⊢
    rw [placement_record_self hentered.stage]
    obtain ⟨-, hplaced⟩ := hentered.staged.placed hshortages
    exact (hplaced rfl).2.missing_eq hentered.files

/-! ### All file sets -/

/-- How many sectors the file sets of a catalog lack. -/
def missing (s : Store) (c : Catalog) : Nat :=
  (c.sets.map fun set => (s.placement set.name).missing set).sum

/-- File sets all of whose cycles are on the medium lack none. -/
theorem missing_eq_zero {c : Catalog} {s : Store} (hc : c.Indexed)
    (h : ∀ set ∈ c.sets, ∀ d ∈ set.cycles, s.Recorded set d) : s.missing c = 0 := by
  refine List.sum_eq_zero fun n hn => ?_
  obtain ⟨set, hset, rfl⟩ := List.mem_map.1 hn
  obtain ⟨first, hfirst⟩ := List.exists_mem_of_ne_nil _ (hc.nonempty set hset)
  obtain ⟨l, hl, -⟩ := (h set hset first hfirst).lead
  rw [Placement.missing, hl, if_neg (Option.some_ne_none l), Nat.zero_add]
  refine List.sum_eq_zero fun m hm => ?_
  obtain ⟨d, hd, rfl⟩ := List.mem_map.1 hm
  obtain ⟨sectors, hsectors, hlength, -⟩ := (h set hset d hd).records
  rw [Placement.sectorsOf, hsectors, Option.getD_some, hlength]
  exact Nat.sub_self _

/-- They lack what the set of a name lacks, and what all others lack. -/
theorem missing_eq {c : Catalog} (h : c.Indexed) (s : Store) (name : SetName) :
    s.missing c = ((c.find? name).map (s.placement name).missing).getD 0 +
      ((c.sets.filter fun set => set.name ≠ name).map
        fun set => (s.placement set.name).missing set).sum := by
  have hperm := Catalog.perm_find? h.ordered name fun set => [(s.placement set.name).missing set]
  simp only [← List.map_eq_flatMap] at hperm
  rw [missing, hperm.sum_eq, List.sum_append]
  refine congrArg (· + _) ?_
  cases hfind : c.find? name with
  | none => rfl
  | some set =>
      obtain ⟨-, rfl⟩ := (Catalog.find?_eq_some_iff h.ordered).1 hfind
      rfl

/-- **There is room for every file set in turn**: as long as the file sets lack no more sectors than
are free and none is put in place of one that lacks less, recording the set that was put in its place
succeeds when no attempt at writing fails, and there is room for the others. -/
theorem room_record {c c' : Catalog} {s : Store} (h : Keeps c s) (hc : c.Indexed)
    (hc' : c'.Indexed) {limit : Nat} (hworking : s.device.Working limit) {name : SetName}
    (hlimit : (s.record name (c'.find? name)).1.device.attempts ≤ limit)
    (hframe : ∀ t : FileSet, t.name ≠ name → (t ∈ c'.sets ↔ t ∈ c.sets))
    (hless : ∀ after ∈ c'.find? name, ∃ set ∈ c.find? name,
      (s.placement name).missing after ≤ (s.placement name).missing set)
    (hroom : s.missing c ≤ s.inUse.spare) :
    (s.record name (c'.find? name)).2 = none ∧
      (s.record name (c'.find? name)).1.device.Working limit ∧
      (s.record name (c'.find? name)).1.missing c' ≤
        (s.record name (c'.find? name)).1.inUse.spare := by
  have hothers : (c'.sets.filter fun set => set.name ≠ name) =
      c.sets.filter fun set => set.name ≠ name := by
    refine eq_of_pairwise_lt FileSet.name (hc'.ordered.filter _) (hc.ordered.filter _) fun set => ?_
    simp only [List.mem_filter, decide_eq_true_eq]
    exact and_congr_left (hframe set)
  have hle : ((c'.find? name).map (s.placement name).missing).getD 0 ≤
      ((c.find? name).map (s.placement name).missing).getD 0 := by
    cases hfind : c'.find? name with
    | none => exact Nat.zero_le _
    | some after =>
        obtain ⟨set, hset, hmissing⟩ := hless after hfind
        rw [Option.mem_def.1 hset]
        exact hmissing
  -- what the set of the name lacked is enough for the one that takes its place
  have hbefore := s.missing_eq hc name
  obtain ⟨hnone, hdevice, hspare, hplaced⟩ := record_of_spare h hc hc' hworking hlimit (by
    intro set hset
    rw [Option.mem_def.1 hset] at hle
    exact Nat.le_trans hle (Nat.le_trans (hbefore ▸ Nat.le_add_right _ _) hroom))
  refine ⟨hnone, hdevice, ?_⟩
  have hafter := (s.record name (c'.find? name)).1.missing_eq hc' name
  have hself : ((c'.find? name).map
      ((s.record name (c'.find? name)).1.placement name).missing).getD 0 = 0 := by
    cases hfind : c'.find? name with
    | none => rfl
    | some set =>
        rw [hfind] at hplaced
        exact hplaced set rfl
  -- the others keep the sectors that they have
  have hrest : (((c'.sets.filter fun set => set.name ≠ name).map fun set =>
        ((s.record name (c'.find? name)).1.placement set.name).missing set)).sum =
      ((c.sets.filter fun set => set.name ≠ name).map
        fun set => (s.placement set.name).missing set).sum := by
    rw [hothers]
    refine congrArg List.sum (List.map_congr_left fun set hset => ?_)
    rw [placement_record_of_ne s _ (of_decide_eq_true (List.mem_filter.1 hset).2)]
  omega

end Store

end FileDirectory
