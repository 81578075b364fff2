/-
**On a healthy device recovery depends on the records alone.**

Recovery writes the records of what is left again, to the sectors that they were read from.  There is
always room: no allocation record holds more extents than it can, and inserting extents into a table
never makes more of them.  So on a device on which no attempt at writing fails, recovery succeeds
exactly if the medium can be read and its records make sense.

Main results:

* `FileDirectory.Recovery.length_extents_le` — an allocation record holds at most seven extents;
* `FileDirectory.Recovery.roomy_rewrite` — there is room to write the records again;
* `FileDirectory.Recovery.settled_rewrite` — no other sectors are written than were read from;
* `FileDirectory.Directory.recover_healthy` — when recovery succeeds, and the catalog that it gives.
-/

import FileDirectory.Proofs.Pack.ExtentTable
import FileDirectory.Proofs.Record.Sector
import FileDirectory.Proofs.Recovery.Recovered

set_option autoImplicit false

namespace FileDirectory

/-! ### Staging with enough sectors -/

namespace Staging

/-- With a sector for each of its records a cycle is not short of space, and needs no other sector. -/
theorem cycle_of_room (s : Staging) (file : FileId) {item : MainItem} {sectors : List Nat}
    (h : item.sectorsNeeded ≤ sectors.length) :
    (s.cycle file item sectors).2.shortages = s.shortages ∧
      (s.cycle file item sectors).2.inUse = s.inUse := by
  unfold cycle
  rw [Nat.sub_eq_zero_of_le h, SectorMap.claim_zero]
  dsimp only
  rw [List.append_nil, if_neg (Nat.not_lt.2 h)]
  exact ⟨rfl, rfl⟩

theorem cycles_of_room (s : Staging) (p : Placement) {items : List (FileId × MainItem)}
    (h : ∀ entry ∈ items, entry.2.sectorsNeeded ≤ (p.sectorsOf entry.1).length) :
    (s.cycles p items).2.shortages = s.shortages ∧ (s.cycles p items).2.inUse = s.inUse := by
  induction items generalizing s with
  | nil => exact ⟨rfl, rfl⟩
  | cons entry items ih =>
      rw [cycles]
      dsimp only
      obtain ⟨hshortages, hinUse⟩ := s.cycle_of_room entry.1 (h entry List.mem_cons_self)
      obtain ⟨hshortages', hinUse'⟩ :=
        ih (s.cycle entry.1 entry.2 (p.sectorsOf entry.1)).2
          fun other hother => h other (List.mem_cons_of_mem _ hother)
      exact ⟨hshortages'.trans hshortages, hinUse'.trans hinUse⟩

end Staging

/-- A set whose lead item and cycles have their sectors is not short of space, and needs no other
sector. -/
theorem Store.stageSet_of_room (s : Store) (staging : Staging) {set : FileSet} {p : Placement}
    (hlead : p.lead ≠ none)
    (h : ∀ c ∈ set.cycles, (s.shown c).sectorsNeeded ≤ (p.sectorsOf c.file).length) :
    (s.stageSet staging set p).2.shortages = staging.shortages ∧
      (s.stageSet staging set p).2.inUse = staging.inUse := by
  obtain ⟨l, hl⟩ := Option.ne_none_iff_exists'.1 hlead
  unfold stageSet
  rw [hl]
  refine Staging.cycles_of_room _ p ?_
  intro entry hentry
  obtain ⟨c, hc, rfl⟩ := List.mem_map.1 hentry
  exact h c hc

namespace Recovery

/-! ### What records hold -/

section Read

variable {device : Device} {found : List Found}

/-- A record that was found is the record of its sector. -/
theorem ofSector_of_read (h : read device = .ok found) {f : Found} (hf : f ∈ found) :
    ∃ content, device.read f.sector = .ok content ∧
      Record.ofSector content = .ok (some f.record) := by
  obtain ⟨-, rfl, -⟩ := read_eq_ok.1 h
  obtain ⟨-, hat⟩ := mem_filterMap_foundAt.1 hf
  unfold foundAt at hat
  cases hread : device.read f.sector with
  | error e =>
      rw [hread] at hat
      cases hat
  | ok content =>
      rw [hread] at hat
      dsimp only at hat
      cases hrecord : Record.ofSector content with
      | error e =>
          rw [hrecord] at hat
          cases hat
      | ok record =>
          rw [hrecord] at hat
          obtain ⟨r, hr, heq⟩ := Option.map_eq_some_iff.1 hat
          refine ⟨content, rfl, ?_⟩
          rw [hrecord, hr, ← heq]

/-- **An allocation record holds at most seven extents.** -/
theorem length_extents_le (h : read device = .ok found) {a : FoundExtents}
    (ha : a ∈ allocations found) : a.extents.length ≤ extentsPerRecord := by
  obtain ⟨content, -, hrecord⟩ := ofSector_of_read h (mem_allocations.1 ha)
  obtain ⟨key, sequence, extents, sector⟩ := a
  cases Sector.ofSector_eq_ok.1 hrecord with
  | allocation hcode hcount => exact Sector.length_extents_le hcount

/-- A main item that was found is that of an identity record. -/
theorem ofSector_of_mains (h : read device = .ok found) {main : MainItem × Nat}
    (hmain : main ∈ mains found) : ∃ content, MainItem.ofSector content = .ok main.1 := by
  obtain ⟨content, -, hrecord⟩ := ofSector_of_read h (mem_mains.1 hmain)
  cases Sector.ofSector_eq_ok.1 hrecord with
  | main hcode hitem => exact ⟨content, hitem⟩

/-- An identity record tells of no extents, and the state of its item follows from the descriptor
flags. -/
theorem identity_of_mains (h : read device = .ok found) {main : MainItem × Nat}
    (hmain : main ∈ mains found) : main.1.table = {} ∧ main.1.state = main.1.descriptor.state := by
  obtain ⟨content, hrecord⟩ := ofSector_of_mains h hmain
  unfold MainItem.ofSector at hrecord
  split at hrecord
  · cases hrecord
  · rw [← Except.ok.inj hrecord]
    exact ⟨rfl, rfl⟩

/-- The allocation records of a cycle hold at most seven extents each. -/
theorem length_extents_allocationsOf_le (h : read device = .ok found) (key : CycleKey) :
    ((allocationsOf found key).flatMap FoundExtents.extents).length ≤
      extentsPerRecord * (allocationsOf found key).length := by
  have hall : ∀ a ∈ allocationsOf found key, a.extents.length ≤ extentsPerRecord := by
    intro a ha
    exact length_extents_le h (mem_allocations.2 (mem_allocationsOf.1 ha).1)
  generalize allocationsOf found key = parts at hall
  induction parts with
  | nil => exact Nat.zero_le _
  | cons a as ih =>
      rw [List.flatMap_cons, List.length_append, List.length_cons, Nat.mul_succ, Nat.add_comm]
      exact Nat.add_le_add (ih fun b hb => hall b (List.mem_cons_of_mem _ hb))
        (hall a List.mem_cons_self)

/-- The table that is built for a main item has at most seven extents for each allocation record. -/
theorem length_table_le (h : read device = .ok found) {main : MainItem × Nat}
    (hmain : main ∈ mains found) :
    (((allocationsOf found main.1.key).flatMap FoundExtents.extents).foldl ExtentTable.insert
      main.1.table).extents.length ≤ extentsPerRecord * (allocationsOf found main.1.key).length := by
  have htable := ExtentTable.length_foldl_insert_le
    ((allocationsOf found main.1.key).flatMap FoundExtents.extents) {}
  rw [show ({} : ExtentTable).extents.length = 0 from rfl, Nat.zero_add] at htable
  rw [(identity_of_mains h hmain).1]
  exact Nat.le_trans htable (length_extents_allocationsOf_le h main.1.key)

/-- A main item that was put together has a sector for each of its records. -/
theorem sectorsNeeded_le (h : read device = .ok found) {main : MainItem × Nat}
    (hmain : main ∈ mains found) (backup : BackupInfo × Nat) :
    (assembled found main backup).item.sectorsNeeded ≤
      (assembled found main backup).sectors.length := by
  have htable := length_table_le h hmain
  have hseven : extentsPerRecord = 7 := rfl
  unfold MainItem.sectorsNeeded assembled
  simp only [List.length_cons, List.length_map]
  rw [hseven] at htable ⊢
  omega

end Read

/-! ### Writing the records again -/

/-- With room for every set there is no complaint, and no other sector is needed. -/
theorem stageAll_of_room (s : Store) (staging : Staging) {sets : List FileSet}
    (hnodup : (sets.map FileSet.name).Nodup)
    (hlead : ∀ set ∈ sets, (s.placement set.name).lead ≠ none)
    (hroom : ∀ set ∈ sets, ∀ c ∈ set.cycles,
      (s.shown c).sectorsNeeded ≤ ((s.placement set.name).sectorsOf c.file).length) :
    (stageAll s staging sets).2.shortages = staging.shortages ∧
      (stageAll s staging sets).2.inUse = staging.inUse := by
  induction sets generalizing s staging with
  | nil => exact ⟨rfl, rfl⟩
  | cons set sets ih =>
      obtain ⟨hout, hrest⟩ := List.nodup_cons.1 hnodup
      obtain ⟨hshortages, hinUse⟩ := Store.stageSet_of_room s staging
        (hlead set List.mem_cons_self) (hroom set List.mem_cons_self)
      have hother : ∀ other ∈ sets, (s.place set.name
          (some (s.stageSet staging set (s.placement set.name)).1)).placement other.name =
          s.placement other.name := by
        intro other hin
        refine Store.placement_place_of_ne s _ ?_
        intro heq
        exact hout (heq ▸ List.mem_map_of_mem hin)
      obtain ⟨hshortages', hinUse'⟩ := ih
        (s.place set.name (some (s.stageSet staging set (s.placement set.name)).1))
        (s.stageSet staging set (s.placement set.name)).2 hrest
        (fun other hin => by
          rw [hother other hin]
          exact hlead other (List.mem_cons_of_mem _ hin))
        (fun other hin c hc => by
          rw [hother other hin]
          exact hroom other (List.mem_cons_of_mem _ hin) c hc)
      exact ⟨hshortages'.trans hshortages, hinUse'.trans hinUse⟩

section Rewriting

variable {config : Configuration} {device : Device} {found : List Found} {r : Rebuilt}

/-- Every recovered set has room for its records. -/
theorem room_rebuild (hread : read device = .ok found) (h : rebuild config found = .ok r) :
    (∀ set ∈ r.catalog.sets, ((initialStore device found r).placement set.name).lead ≠ none) ∧
      ∀ set ∈ r.catalog.sets, ∀ c ∈ set.cycles,
        ((initialStore device found r).shown c).sectorsNeeded ≤
          (((initialStore device found r).placement set.name).sectorsOf c.file).length := by
  have hdistinct := distinct_of_read hread
  have hindexed := indexed_rebuild hdistinct h
  obtain ⟨-, hnodupNames, -⟩ := placed_rebuild device hdistinct h
  obtain ⟨items, space, hitems, -, rfl⟩ := rebuild_eq_ok.1 h
  have hplacement := fun {f : FileSet × Placement} (hf : f ∈ recoveredSets items 0 (leads found)) =>
    placement_of_mem_recoveredSets (s := initialStore device found (extend items
      { catalog := Catalog.empty config, cleared := strayBackups found } space (leads found)))
      rfl hnodupNames hf
  refine ⟨?_, ?_⟩
  · intro set hset
    obtain ⟨f, hf, rfl⟩ := List.mem_map.1 hset
    rw [hplacement hf]
    obtain ⟨lead, -, n, -, rfl⟩ := mem_recoveredSets hf
    exact Option.some_ne_none lead.2
  · intro set hset c hc
    have hfiles := hindexed.nodup set hset
    obtain ⟨f, hf, rfl⟩ := List.mem_map.1 hset
    rw [hplacement hf]
    obtain ⟨lead, -, n, -, rfl⟩ := mem_recoveredSets hf
    obtain ⟨entry, hentry, rfl⟩ := List.mem_map.1 hc
    -- a cycle keeps the sectors that its records were found in
    have hsectors : (recoveredSet n (survivors items lead) lead).2.sectorsOf entry.1 =
        entry.2.sectors := by
      refine Placement.sectorsOf_of_mem ?_ ?_
      · rw [placed_recoveredSet]
        exact hfiles
      · exact List.mem_map_of_mem (f := recoveredSectors) hentry
    have hin : entry.2 ∈ items := by
      have hsurvivor : entry.2 ∈ survivors items lead := by
        rw [← files_numbered n (survivors items lead)]
        exact List.mem_map_of_mem hentry
      exact (List.mem_filter.1 (List.mem_filter.1 hsurvivor).1).1
    obtain ⟨main, hmain, backup, -, -, heq⟩ := assembleAll_map hitems entry.2 hin
    -- and has found as many records as it needs
    have hneeded := sectorsNeeded_le hread hmain backup
    rw [← heq] at hneeded
    have hfile : (recoveredCycle entry).file = entry.1 := rfl
    rw [hfile, hsectors]
    exact hneeded

variable {t : Store} {staging : Staging} (hread : read device = .ok found)
  (h : rebuild config found = .ok r)
  (hstage : stageAll (initialStore device found r)
    (Staging.free { inUse := inUse device found } r.cleared) r.catalog.sets = (t, staging))

include hread h hstage

/-- **There is room to write the records again**, in the sectors that they were read from. -/
theorem roomy_rewrite : staging.shortages = [] ∧ staging.inUse = inUse device found := by
  obtain ⟨hlead, hroom⟩ := room_rebuild hread h
  have hroomy := stageAll_of_room (initialStore device found r)
    (Staging.free { inUse := inUse device found } r.cleared)
    (indexed_rebuild (distinct_of_read hread) h).ordered.nodup_names hlead hroom
  rw [hstage] at hroomy
  exact hroomy

/-- Only sectors that records were read from are written, and each ends up with a file set or is
cleared. -/
theorem settled_rewrite :
    ∃ freed writes, Staging.Account { inUse := inUse device found } (found.map Found.sector) [] freed
      writes staging t.owned := by
  obtain ⟨claimed, freed, writes, haccount, -⟩ := account_rewrite hread h hstage
  obtain ⟨-, hinUse⟩ := roomy_rewrite hread h hstage
  have hnone : claimed = [] := by
    refine List.eq_nil_iff_forall_not_mem.2 fun sector hclaimed => ?_
    have hfree := haccount.taken.free sector hclaimed
    have hused := haccount.taken.getElem? sector
    rw [if_pos hclaimed, hinUse] at hused
    rw [hused] at hfree
    cases hfree
  exact ⟨freed, writes, hnone ▸ haccount⟩

theorem sector_mem_of_write : ∀ w ∈ staging.writes, w.sector ∈ found.map Found.sector := by
  obtain ⟨freed, writes, haccount⟩ := settled_rewrite hread h hstage
  intro w hw
  rw [haccount.writes_eq] at hw
  have hin := haccount.perm.mem_iff.1
    (haccount.subperm.subset (List.mem_map_of_mem (f := Write.sector) hw))
  rwa [List.append_nil] at hin

/-- On a healthy device writing the records again meets no failure. -/
theorem report_rewrite (hhealthy : device.Healthy) :
    Store.report (t.flush staging).2 staging.shortages = none := by
  obtain ⟨hdevice, -⟩ := placed_rewrite hread h hstage
  obtain ⟨hshortages, -⟩ := roomy_rewrite hread h hstage
  have hnone : (t.flush staging).2 = [] := by
    refine (Store.write_healthy (hdevice ▸ hhealthy) ?_).1
    intro w hw
    obtain ⟨f, hf, hsector⟩ := List.mem_map.1 (sector_mem_of_write hread h hstage w hw)
    rw [hdevice, ← hsector]
    exact sector_lt_of_read hread f hf
  rw [hnone, hshortages]
  rfl

end Rewriting

end Recovery

namespace Directory

open Recovery

/-- **On a healthy device recovery succeeds exactly if the medium can be read and its records make
sense**, and gives the catalog that they describe. -/
theorem recover_healthy (config : Configuration) {device : Device} (h : device.Healthy)
    {catalog : Catalog} :
    (∃ d, (recover config device).1 = .ok d ∧ d.catalog = catalog) ↔
      ∃ found r, Recovery.read device = .ok found ∧ rebuild config found = .ok r ∧
        r.catalog = catalog := by
  cases hread : Recovery.read device with
  | error f => simp [recover_of_read_error hread]
  | ok found =>
      cases hbuild : rebuild config found with
      | error e => simp [recover_of_rebuild_error hread hbuild, hbuild]
      | ok r =>
          rw [recover_of_rebuild hread hbuild rfl, report_rewrite hread hbuild rfl h]
          simp [hbuild]

end Directory

end FileDirectory
