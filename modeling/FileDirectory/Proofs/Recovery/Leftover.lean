/-
**What is left over on a medium.**

A sector that a write failed to clear still holds the record of something that is gone.  Where every
cycle of a catalog is on the medium as it is shown, the ledger has the entries of the file sets and,
beside these, what is left over.  A cycle can be found on the medium, then, only if it is in the
catalog or if its identity record is left over.

Main definitions:

* `FileDirectory.Store.leftovers` — the records in sectors that belong to no file set;
* `FileDirectory.Store.Reflects` — every cycle is on the medium as it is shown;
* `FileDirectory.Store.shownCatalog` — the catalog as it is shown.

Main results:

* `FileDirectory.Store.Reflects.upToDate` — the medium is then up to date with what is shown;
* `FileDirectory.Store.UpToDate.perm_ledger` — what the ledger of such a medium has;
* `FileDirectory.Store.Reflects.exists_live_iff` — the cycles that are found on it.
-/

import FileDirectory.Proofs.Record.Sector
import FileDirectory.Proofs.Recovery.Mirror

set_option autoImplicit false

namespace FileDirectory

open Recovery

namespace Store

/-! ### What is shown -/

/-- A cycle as it is shown. -/
def shownCycle (s : Store) (c : FileCycle) : FileCycle := { c with item := s.shown c }

/-- A file set as it is shown. -/
def shownSet (s : Store) (set : FileSet) : FileSet :=
  { set with cycles := set.cycles.map s.shownCycle }

/-- A catalog as it is shown. -/
def shownCatalog (s : Store) (c : Catalog) : Catalog := { c with sets := c.sets.map s.shownSet }

/-- The store with no cycle suspect. -/
def trusting (s : Store) : Store := { s with suspect := [] }

section Shown

variable (s : Store)

@[simp] theorem name_shownSet (set : FileSet) : (s.shownSet set).name = set.name := rfl

@[simp] theorem files_shownSet (set : FileSet) : (s.shownSet set).files = set.files := by
  unfold FileSet.files shownSet
  rw [List.map_map]
  rfl

@[simp] theorem cycleCount_shownSet (set : FileSet) :
    (s.shownSet set).cycleCount = set.cycleCount := by
  unfold FileSet.cycleCount shownSet
  rw [List.countP_map]
  rfl

@[simp] theorem currentRange_shownSet (set : FileSet) :
    (s.shownSet set).currentRange = set.currentRange := by
  unfold FileSet.currentRange shownSet
  rw [List.foldl_map]
  rfl

@[simp] theorem packTracks_shownSet (set : FileSet) :
    (s.shownSet set).packTracks = set.packTracks := by
  unfold FileSet.packTracks shownSet
  rw [List.flatMap_map]
  rfl

end Shown

variable {s : Store} {c : Catalog} {set : FileSet}

/-- What is shown of a set is attributed to it as the set is. -/
theorem attributable_shownSet (h : set.Attributable) : (s.shownSet set).Attributable where
  lead := h.lead
  key := List.forall_mem_map.2 h.key
  state := List.forall_mem_map.2 h.state
  keys := by
    have hkeys : ((s.shownSet set).cycles.map fun d => d.item.key) =
        set.cycles.map fun d => d.item.key := List.map_map
    rw [hkeys]
    exact h.keys

theorem numbered_shownSet : (s.shownSet set).Numbered ↔ set.Numbered := List.forall_mem_map

theorem indexed_shownCatalog (h : c.Indexed) : (s.shownCatalog c).Indexed where
  ordered := List.pairwise_map.2 h.ordered
  nonempty := List.forall_mem_map.2 fun set hset hnil =>
    h.nonempty set hset (List.map_eq_nil_iff.1 hnil)
  nodup := List.forall_mem_map.2 fun set hset => by
    rw [files_shownSet]
    exact h.nodup set hset
  apart := List.forall_mem_map.2 fun set hset => List.forall_mem_map.2 fun other hother => by
    intro file hin hin'
    rw [files_shownSet] at hin hin'
    exact congrArg s.shownSet (h.apart set hset other hother file hin hin')
  le_last := List.forall_mem_map.2 fun set hset => by
    rw [files_shownSet]
    exact h.le_last set hset
  named := List.forall_mem_map.2 fun set hset => List.forall_mem_map.2 (h.named set hset)

theorem partitioned_shownCatalog (h : c.Partitioned) : (s.shownCatalog c).Partitioned where
  sound := h.sound
  capacity := h.capacity
  tables := List.forall_mem_map.2 fun set hset => List.forall_mem_map.2 (h.tables set hset)
  perm := by
    have htracks : (s.shownCatalog c).sets.flatMap FileSet.packTracks =
        c.sets.flatMap FileSet.packTracks := by
      unfold shownCatalog
      rw [List.flatMap_map]
      exact List.flatMap_congr fun set _ => packTracks_shownSet s set
    rw [htracks]
    exact h.perm

/-! ### Media that reflect a catalog -/

/-- The sectors of the file sets are told apart, and every cycle, suspect or not, is on the medium as
it is shown. -/
structure Reflects (c : Catalog) (s : Store) : Prop where
  keeps : Keeps c s
  recorded : ∀ set ∈ c.sets, ∀ d ∈ set.cycles, s.Recorded set d

/-- What is on the medium as it is shown is there as it is, where it is taken for what is shown. -/
theorem Recorded.shown {d : FileCycle} (h : s.Recorded set d) :
    s.trusting.Recorded (s.shownSet set) (s.shownCycle d) := by
  obtain ⟨⟨lead, hlead, hread⟩, sectors, hlookup, hlength, hsectors⟩ := h
  refine ⟨⟨lead, hlead, ?_⟩, sectors, hlookup, hlength, ?_⟩
  · rw [currentRange_shownSet, cycleCount_shownSet]
    exact hread
  · rw [shown_of_suspect_eq_nil (s := s.trusting) rfl]
    exact hsectors

/-- **A medium that reflects a catalog is up to date with what is shown of it.** -/
theorem Reflects.upToDate (h : s.Reflects c) : s.trusting.UpToDate (s.shownCatalog c) := by
  have hrecorded : ∀ set ∈ (s.shownCatalog c).sets, ∀ d ∈ set.cycles,
      s.trusting.Recorded set d :=
    List.forall_mem_map.2 fun set hset => List.forall_mem_map.2 fun d hd =>
      (h.recorded set hset d hd).shown
  refine ⟨{
    length_inUse := h.keeps.length_inUse
    nodup_names := h.keeps.nodup_names
    names := fun name => (h.keeps.names name).trans ?_
    nodup_owned := h.keeps.nodup_owned
    inUse_of_owned := h.keeps.inUse_of_owned
    files := List.forall_mem_map.2 fun set hset => ?_
    headless := h.keeps.headless
    recorded := fun set hset d hd _ => hrecorded set hset d hd }, rfl, hrecorded⟩
  · simp [shownCatalog]
  · rw [files_shownSet]
    exact h.keeps.files set hset

/-! ### What is left over -/

/-- The records in sectors that belong to no file set. -/
def leftovers (s : Store) : List Found :=
  (ledger s.device.copy).filter fun f => f.sector ∉ s.owned

theorem mem_leftovers {f : Found} :
    f ∈ s.leftovers ↔ f ∈ ledger s.device.copy ∧ f.sector ∉ s.owned := by
  simp [leftovers]

@[simp] theorem leftovers_trusting (s : Store) : s.trusting.leftovers = s.leftovers := rfl

/-- **The ledger of a medium that is up to date with a catalog** has the entries of the file sets and
what is left over. -/
theorem UpToDate.perm_ledger (h : s.UpToDate c) (hc : c.Indexed) :
    (ledger s.device.copy).Perm (c.sets.flatMap s.entries ++ s.leftovers) := by
  have hsectors := h.perm_sectors hc
  have howned : ((ledger s.device.copy).filter fun f => f.sector ∈ s.owned).Perm
      (c.sets.flatMap s.entries) := by
    have hnodup : (ledger s.device.copy).Nodup := (nodup_sectors_foundAt _).of_map
    have hentries : (c.sets.flatMap s.entries).Nodup :=
      (hsectors.nodup_iff.2 h.keeps.nodup_owned).of_map
    refine (List.perm_ext_iff_of_nodup (hnodup.filter _) hentries).2 fun f => ?_
    -- an entry is what is found in its sector
    have hfound : ∀ g ∈ c.sets.flatMap s.entries, foundAt s.device.copy g.sector = some g := by
      intro g hg
      obtain ⟨content, hread, hrecord⟩ := h.read_of_mem hc hg
      exact foundAt_of_read hread hrecord
    rw [List.mem_filter, decide_eq_true_iff]
    constructor
    · rintro ⟨hin, howned⟩
      obtain ⟨g, hg, hsector⟩ := List.mem_map.1 (hsectors.mem_iff.2 howned)
      have hat := (mem_filterMap_foundAt.1 hin).2
      rw [← hsector, hfound g hg] at hat
      rwa [← Option.some.inj hat]
    · intro hf
      obtain ⟨content, hread, -⟩ := h.read_of_mem hc hf
      refine ⟨mem_filterMap_foundAt.2 ⟨List.mem_range.2 (sector_lt_of_read_eq_ok hread),
        hfound f hf⟩, hsectors.mem_iff.1 (List.mem_map_of_mem hf)⟩
  have hsplit := (List.filter_append_perm (fun f : Found => decide (f.sector ∈ s.owned))
    (ledger s.device.copy)).symm
  refine hsplit.trans (howned.append (List.Perm.of_eq (List.filter_congr fun f _ => ?_)))
  exact (decide_not ..).symm

/-- Where nothing is left over, a medium that can be read carries the catalog. -/
theorem UpToDate.carries (h : s.UpToDate c)
    (hreadable : ∀ sector < s.device.sectorCount, Readable s.device.copy sector)
    (hnone : s.leftovers = []) : s.Carries c := by
  refine ⟨h.keeps, h.suspect, h.recorded, fun sector hlt hout => ?_⟩
  obtain ⟨content, record, hread, hrecord⟩ := hreadable sector hlt
  refine ⟨content, by rwa [← Device.read_copy], ?_⟩
  cases record with
  | none => exact hrecord
  | some r =>
      have hin : (⟨sector, r⟩ : Found) ∈ s.leftovers := mem_leftovers.2
        ⟨mem_filterMap_foundAt.2 ⟨List.mem_range.2 hlt, foundAt_of_read hread hrecord⟩, hout⟩
      rw [hnone] at hin
      cases hin

/-! ### The cycles that are found -/

/-- The records of a file set say of its live cycles that they are. -/
theorem exists_live_entries_iff (h : Whole s set) (hr : set.Attributable) {key : CycleKey} :
    (∃ f ∈ s.entries set, f.record.liveKey? = some key) ↔
      ∃ d ∈ set.cycles, d.item.key = key ∧ d.item.state = .live := by
  have hstored : ∀ d ∈ set.cycles, d.item.stored.key = d.item.key ∧
      d.item.stored.state = d.item.state := fun d hd => ⟨hr.key d hd, hr.state d hd⟩
  constructor
  · rintro ⟨⟨sector, record⟩, hf, hlive⟩
    obtain ⟨item, rfl, rfl, hitem⟩ := Record.liveKey?_eq_some.1 hlive
    obtain ⟨d, hd, rfl⟩ := (exists_main_entries h).1 ⟨sector, hf⟩
    exact ⟨d, hd, (hstored d hd).1.symm, (hstored d hd).2.symm.trans hitem⟩
  · rintro ⟨d, hd, rfl, hlive⟩
    obtain ⟨sector, hf⟩ := (exists_main_entries h).2 ⟨d, hd, rfl⟩
    exact ⟨_, hf, Record.liveKey?_eq_some.2
      ⟨_, rfl, (hstored d hd).1, (hstored d hd).2.trans hlive⟩⟩

/-- **The live cycles that are found on a medium that reflects a catalog** are those of the catalog, and
those whose identity records are left over. -/
theorem Reflects.exists_live_iff (h : s.Reflects c) (hc : c.Indexed)
    (hr : ∀ set ∈ c.sets, set.Attributable) {key : CycleKey} :
    (∃ f ∈ ledger s.device.copy, f.record.liveKey? = some key) ↔
      (∃ set ∈ c.sets, ∃ d ∈ set.cycles, d.item.key = key ∧ d.item.state = .live) ∨
        ∃ f ∈ s.leftovers, f.record.liveKey? = some key := by
  have hindexed := indexed_shownCatalog (s := s) hc
  have hledger : ∀ f, f ∈ ledger s.device.copy ↔
      (∃ set ∈ c.sets, f ∈ s.trusting.entries (s.shownSet set)) ∨ f ∈ s.leftovers := by
    intro f
    have hperm : (ledger s.device.copy).Perm _ := h.upToDate.perm_ledger hindexed
    rw [hperm.mem_iff]
    simp [shownCatalog]
  have hset : ∀ set ∈ c.sets, (∃ f ∈ s.trusting.entries (s.shownSet set),
      f.record.liveKey? = some key) ↔
        ∃ d ∈ set.cycles, d.item.key = key ∧ d.item.state = .live := by
    intro set hset
    rw [exists_live_entries_iff (h.upToDate.whole hindexed (List.mem_map_of_mem hset))
      (attributable_shownSet (hr set hset))]
    simp [shownSet, shownCycle, shown]
  constructor
  · rintro ⟨f, hf, hlive⟩
    rcases (hledger f).1 hf with ⟨set, hin, hentry⟩ | hleft
    · exact Or.inl ⟨set, hin, (hset set hin).1 ⟨f, hentry, hlive⟩⟩
    · exact Or.inr ⟨f, hleft, hlive⟩
  · rintro (⟨set, hin, hlive⟩ | ⟨f, hleft, hlive⟩)
    · obtain ⟨f, hentry, hlive⟩ := (hset set hin).2 hlive
      exact ⟨f, (hledger f).2 (Or.inl ⟨set, hin, hentry⟩), hlive⟩
    · exact ⟨f, (hledger f).2 (Or.inr hleft), hlive⟩

end Store

end FileDirectory
