/-
**Every item fits into its records.**

The names and keys that the directory accepts have room in their words, cycle numbers and ranges in
their halves, and counts stop at the largest value of a word.  So each lead item of a catalog reads
back from its record as it is, and each main item but for how often it is assigned at the moment.
Readings of the clock fit as long as the clock has not run past a word.

Main definitions:

* `FileDirectory.LeadItem.Fits`, `FileDirectory.MainItem.Fits` — an item fits into its records;
* `FileDirectory.MainItem.Timed` — so do its readings of the clock;
* `FileDirectory.Catalog.Recordable` — the items of a catalog fit, and no two cycles of a file set
  have one number.

Main results:

* `FileDirectory.LeadItem.Fits.stored_eq`, `FileDirectory.MainItem.Fits.stored_eq` — what reads back
  of items that fit;
* `FileDirectory.Catalog.Step.recordable`, `FileDirectory.Catalog.Step.timed` — steps keep this up.
-/

import FileDirectory.Proofs.Catalog.Indexed
import FileDirectory.Proofs.Catalog.Numbering
import FileDirectory.Proofs.Record.RoundTrip

set_option autoImplicit false

namespace FileDirectory

/-! ### Items that fit -/

/-- A lead item fits into its record. -/
structure LeadItem.Fits (lead : LeadItem) : Prop where
  name : lead.name.stored = lead.name
  projectId : Fieldata.stored lead.projectId 2 = lead.projectId
  readKey : Fieldata.stored lead.readKey 1 = lead.readKey
  writeKey : Fieldata.stored lead.writeKey 1 = lead.writeKey
  maxRange : lead.maxRange < 2 ^ 18
  highest : lead.highest < 2 ^ 18

/-- A main item fits into its records, apart from its extents and its readings of the clock, and shows
no directory error. -/
structure MainItem.Fits (m : MainItem) : Prop where
  key : m.key.stored = m.key
  state : m.descriptor.state = m.state
  projectId : Fieldata.stored m.projectId 2 = m.projectId
  accountId : Fieldata.stored m.accountId 2 = m.accountId
  assignMnemonic : Fieldata.stored m.assignMnemonic 1 = m.assignMnemonic
  placement : m.placement < 2 ^ 18
  cumulativeAssigns : m.cumulativeAssigns < 2 ^ 36
  initialGranules : m.initialGranules < 2 ^ 36
  maxGranules : m.maxGranules < 2 ^ 36
  highestGranule : m.highestGranule < 2 ^ 36
  highestTrackWritten : m.highestTrackWritten < 2 ^ 36
  backup : m.backup.stored = m.backup
  disable : m.disable.directoryError = false

/-- The readings of the clock in a main item fit into words. -/
structure MainItem.Timed (m : MainItem) : Prop where
  timeOfFirstWrite : m.timeOfFirstWrite < 2 ^ 36
  lastReference : m.lastReference < 2 ^ 36
  catalogTime : m.catalogTime < 2 ^ 36

/-- A lead item that fits reads back as it is. -/
theorem LeadItem.Fits.stored_eq {lead : LeadItem} (h : lead.Fits) : lead.stored = lead := by
  obtain ⟨name, projectId, readKey, writeKey, maxRange, highest⟩ := h
  rw [stored, name, projectId, readKey, writeKey, Nat.mod_eq_of_lt maxRange,
    Nat.mod_eq_of_lt highest]

/-- A lead item stays fit when the number of the highest cycle or its flags change. -/
theorem LeadItem.Fits.congr {lead lead' : LeadItem} (h : lead.Fits)
    (hname : lead'.name = lead.name) (hproject : lead'.projectId = lead.projectId)
    (hread : lead'.readKey = lead.readKey) (hwrite : lead'.writeKey = lead.writeKey)
    (hrange : lead'.maxRange = lead.maxRange) (hhighest : lead'.highest < 2 ^ 18) : lead'.Fits :=
  ⟨hname ▸ h.name, hproject ▸ h.projectId, hread ▸ h.readKey, hwrite ▸ h.writeKey,
    hrange ▸ h.maxRange, hhighest⟩

/-- A main item that fits reads back from its identity record as it is, without its backup and its
extents; of how often it is assigned only the low eighteen bits are recorded. -/
theorem MainItem.Fits.stored_eq {m : MainItem} (h : m.Fits) (ht : m.Timed) :
    m.stored = { m with assigned := m.assigned % 2 ^ 18, backup := {}, table := {} } := by
  unfold stored
  rw [h.key, h.state, h.projectId, h.accountId, h.assignMnemonic, Nat.mod_eq_of_lt h.placement,
    Nat.mod_eq_of_lt h.cumulativeAssigns, Nat.mod_eq_of_lt h.initialGranules,
    Nat.mod_eq_of_lt h.maxGranules, Nat.mod_eq_of_lt h.highestGranule,
    Nat.mod_eq_of_lt h.highestTrackWritten, Nat.mod_eq_of_lt ht.timeOfFirstWrite,
    Nat.mod_eq_of_lt ht.lastReference, Nat.mod_eq_of_lt ht.catalogTime]

theorem stored_name_of_fits {name : SetName}
    (hqualifier : NameRole.qualifier.Fits name.qualifier.toList)
    (hfilename : NameRole.filename.Fits name.filename.toList) : name.stored = name := by
  rw [SetName.stored, Fieldata.stored_of_fits hqualifier (by decide),
    Fieldata.stored_of_fits hfilename (by decide)]

theorem stored_empty : Fieldata.stored "" 1 = "" :=
  Fieldata.stored_of_fits (show NameRole.key.Fits "".toList from by decide) (by decide)

theorem backup_stored_default : BackupInfo.stored {} = {} := by
  unfold BackupInfo.stored
  rw [stored_empty]
  rfl

namespace Catalog

/-! ### Items that change -/

section Items

variable {call : Call} {cycle after : FileCycle}

/-- A cycle that goes on existing fits as it did. -/
theorem CycleStep.fits (hstep : CycleStep call cycle after) (h : cycle.item.Fits) :
    after.item.Fits := by
  cases hstep with
  | assign _ =>
      exact { h with
        cumulativeAssigns := Nat.lt_of_le_of_lt (Nat.min_le_right _ _) (by decide) }
  | release share _ => exact { h with }
  | delete _ => exact { h with state := rfl }
  | write region hregion =>
      have hlimit : region.limit < 2 ^ 36 := Nat.lt_of_le_of_lt hregion.limit_le (by decide)
      exact { h with highestTrackWritten := Nat.max_lt.2 ⟨h.highestTrackWritten, hlimit⟩ }

/-- A cycle that becomes live fits as it did. -/
theorem CatalogStep.fits (hstep : CatalogStep call cycle after) (h : cycle.item.Fits) :
    after.item.Fits := by
  cases hstep <;> exact { h with state := rfl }

/-- Readings of the clock that a step makes are the reading of its call. -/
theorem CycleStep.timed (hstep : CycleStep call cycle after) (hnow : call.now < 2 ^ 36)
    (h : cycle.item.Timed) : after.item.Timed := by
  obtain ⟨written, reference, cataloged⟩ := h
  cases hstep with
  | assign _ => exact ⟨written, hnow, cataloged⟩
  | release share _ => exact ⟨written, hnow, cataloged⟩
  | delete _ => exact ⟨written, reference, cataloged⟩
  | write =>
      refine ⟨?_, hnow, cataloged⟩
      show (if cycle.item.fileFlags.written then cycle.item.timeOfFirstWrite else call.now) < 2 ^ 36
      split
      · exact written
      · exact hnow

theorem CatalogStep.timed (hstep : CatalogStep call cycle after) (hnow : call.now < 2 ^ 36)
    (h : cycle.item.Timed) : after.item.Timed := by
  obtain ⟨written, reference, -⟩ := h
  cases hstep with
  | catalog _ => exact ⟨written, reference, hnow⟩
  | release share _ => exact ⟨written, hnow, hnow⟩

/-- A created cycle fits. -/
theorem fits_fileCycle {config : Configuration} {r : Creation} (hr : WellFormed config r)
    {lead : LeadItem} (hlead : lead.Fits) {number : Nat} (hnumber : number ≤ Cycle.highestNumber)
    (file : FileId) (call : Call) (regions : List Region) :
    (r.fileCycle lead number file call regions).item.Fits := by
  have hkey : (⟨lead.name, number⟩ : CycleKey).stored = ⟨lead.name, number⟩ := by
    rw [CycleKey.stored, hlead.name, Nat.mod_eq_of_lt (Nat.lt_of_le_of_lt hnumber (by decide))]
  have hcount : min (0 + 1) Word.maxValue < 2 ^ 36 := by decide
  have hzero : 0 < 2 ^ 36 := by decide
  have hplacement : 0 < 2 ^ 18 := by decide
  have hstate : DescriptorFlags.state {
      tape := lead.fileType = .tape
      toBeCataloged := r.state = .cataloging
      toBeDropped := r.state = .dropping } = r.state := by
    cases hr.kind with
    | tape _ hstate => rw [hstate]; rfl
    | disk _ hstate => rw [hstate]; rfl
  unfold Creation.fileCycle FileCycle.assign Creation.item
  dsimp only
  cases hr.kind with
  | tape htype _ _ _ =>
      have hnot : ¬r.fileType = .massStorage := by
        rw [htype]
        decide
      rw [if_neg hnot]
      exact ⟨hkey, hstate, hlead.projectId, Fieldata.stored_stored _ 2, stored_empty,
        hplacement, hcount, hzero, hzero, hzero, hzero, backup_stored_default, rfl⟩
  | disk htype _ _ hreserve hmaximum =>
      have hmax : r.maxGranules < 2 ^ 36 := Nat.lt_of_le_of_lt hmaximum (by decide)
      rw [if_pos htype]
      exact ⟨hkey, hstate, hlead.projectId, Fieldata.stored_stored _ 2, stored_empty,
        hplacement, hcount, Nat.lt_of_le_of_lt hreserve hmax, hmax,
        Nat.lt_of_le_of_lt hreserve hmax, hzero, backup_stored_default, rfl⟩

theorem timed_fileCycle (r : Creation) (lead : LeadItem) (number : Nat) (file : FileId)
    {call : Call} (hnow : call.now < 2 ^ 36) (regions : List Region) :
    (r.fileCycle lead number file call regions).item.Timed := by
  have hzero : 0 < 2 ^ 36 := by decide
  have hcataloged : (if r.state = .cataloging then 0 else call.now) < 2 ^ 36 := by
    split
    · exact hzero
    · exact hnow
  unfold Creation.fileCycle FileCycle.assign Creation.item
  dsimp only
  split
  · exact ⟨hzero, hnow, hcataloged⟩
  · exact ⟨hzero, hnow, hcataloged⟩

end Items

/-! ### Catalogs that can be recorded -/

/-- Every item of the catalog fits into its records, and no two cycles of a set have one number. -/
structure Recordable (c : Catalog) : Prop where
  leads : ∀ set ∈ c.sets, set.lead.Fits
  items : ∀ set ∈ c.sets, ∀ d ∈ set.cycles, d.item.Fits
  keys : ∀ set ∈ c.sets, (set.cycles.map fun d => d.item.key).Nodup

theorem recordable_empty (config : Configuration) : Recordable (Catalog.empty config) where
  leads := by intro set hset; cases hset
  items := by intro set hset; cases hset
  keys := by intro set hset; cases hset

/-- What a step puts into the catalog can be recorded. -/
structure RecordableSet (set : FileSet) : Prop where
  lead : set.lead.Fits
  items : ∀ d ∈ set.cycles, d.item.Fits
  keys : (set.cycles.map fun d => d.item.key).Nodup

/-- Putting such a set in its place keeps the catalog recordable. -/
theorem Recordable.put {c : Catalog} (h : Recordable c) (hordered : Ordered c.sets) {set : FileSet}
    {space : FreeSpace} {last : Nat} (hset : RecordableSet set) :
    Recordable ({ c with space := space, lastFile := last }.put set) where
  leads := forall_sets_put hordered h.leads hset.lead
  items := forall_sets_put hordered h.items hset.items
  keys := forall_sets_put hordered h.keys hset.keys

theorem Recordable.set {c : Catalog} (h : Recordable c) {set : FileSet} (hset : set ∈ c.sets) :
    RecordableSet set :=
  ⟨h.leads set hset, h.items set hset, h.keys set hset⟩

namespace RecordableSet

variable {set : FileSet}

theorem refresh (h : RecordableSet set) : RecordableSet set.refresh :=
  ⟨h.lead.congr rfl rfl rfl rfl rfl h.lead.highest, h.items, h.keys⟩

/-- Replacing a cycle by one of its name. -/
theorem modify (h : RecordableSet set) {cycle after : FileCycle} (hcycle : cycle ∈ set.cycles)
    (hfiles : set.files.Nodup) (hkey : after.item.key = cycle.item.key)
    (hafter : after.item.Fits) : RecordableSet (set.modify cycle.file fun _ => after) := by
  refine ⟨h.lead, FileSet.forall_cycles_modify h.items hafter, ?_⟩
  rw [FileSet.map_modify hfiles hcycle hkey]
  exact h.keys

theorem erase (h : RecordableSet set) (file : FileId) : RecordableSet (set.erase file) :=
  ⟨h.lead, fun d hd => h.items d (FileSet.mem_cycles_erase.1 hd).1,
    h.keys.sublist (List.filter_sublist.map _)⟩

theorem guarded (h : RecordableSet set) (guarded : Bool) :
    RecordableSet (guardedSet set guarded) := by
  refine ⟨h.lead.congr rfl rfl rfl rfl rfl h.lead.highest, ?_, ?_⟩
  · intro d hd
    obtain ⟨e, he, rfl⟩ := List.mem_map.1 hd
    exact { h.items e he with }
  · have hkeys : ((guardedSet set guarded).cycles.map fun d => d.item.key) =
        set.cycles.map fun d => d.item.key := by
      unfold guardedSet
      rw [List.map_map]
      rfl
    rw [hkeys]
    exact h.keys

end RecordableSet

/-- The lead item of a new file set fits. -/
theorem fits_newSet {config : Configuration} (hconfig : config.defaultMaxRange < 2 ^ 18)
    {r : Creation} (hr : WellFormed config r) (client : Client) :
    RecordableSet (r.newSet client) := by
  have hrange : r.maxRange < 2 ^ 18 := by
    have hsmall : Cycle.highestNumber < 2 ^ 18 := by decide
    cases hr.kind with
    | tape _ _ hrange _ =>
        rcases hrange with heq | ⟨-, hle⟩
        · exact heq ▸ hconfig
        · exact Nat.lt_of_le_of_lt hle hsmall
    | disk _ _ hrange _ _ => exact hrange ▸ hconfig
  exact ⟨⟨stored_name_of_fits hr.qualifier hr.filename, Fieldata.stored_stored _ 2,
    Fieldata.stored_of_fits hr.readKey (by decide), Fieldata.stored_of_fits hr.writeKey (by decide),
    hrange, Nat.two_pow_pos 18⟩, fun d hd => (by cases hd), List.nodup_nil⟩

/-- A set that can be recorded can be so with a new cycle. -/
theorem RecordableSet.enter {config : Configuration} {r : Creation} (hr : WellFormed config r)
    {set : FileSet} (h : RecordableSet set) {number : Nat} {newest : Bool}
    (hnumber : set.chooseNew r.cycle = .ok (number, newest)) (file : FileId) (call : Call)
    (regions : List Region) :
    RecordableSet {
      lead := if newest then { set.lead with highest := number } else set.lead
      cycles := set.cycles ++ [r.fileCycle set.lead number file call regions] } := by
  obtain ⟨-, hle, hnew⟩ := chooseNew_spec hr.cycle hnumber
  constructor
  case lead =>
    dsimp only
    split
    · refine h.lead.congr rfl rfl rfl rfl rfl ?_
      exact Nat.lt_of_le_of_lt hle (by decide)
    · exact h.lead
  case items =>
    intro d hd
    rcases List.mem_append.1 hd with hd | hd
    · exact h.items d hd
    · rw [List.mem_singleton.1 hd]
      exact fits_fileCycle hr h.lead hle _ call regions
  case keys =>
    -- the number of the new cycle is that of no other one
    rw [List.map_append, List.map_singleton, List.nodup_append]
    refine ⟨h.keys, List.nodup_singleton _, ?_⟩
    rintro key hin other hother rfl
    obtain ⟨d, hd, rfl⟩ := List.mem_map.1 hin
    have hkey := List.mem_singleton.1 hother
    rw [key_fileCycle] at hkey
    exact hnew d hd (congrArg CycleKey.cycle hkey)

namespace Step

variable {call : Call} {c : Catalog} {set : FileSet} {space : FreeSpace} {last : Nat}

/-- The set that a step puts in its place can be recorded. -/
theorem recordableSet (hs : Step call c set space last) (h : Recordable c) (hc : c.Indexed)
    (hconfig : c.config.defaultMaxRange < 2 ^ 18) : RecordableSet set := by
  cases hs with
  | @enter r old number newest regions _ hr hset hnumber htracks hspace =>
      have hold : RecordableSet old := by
        rcases setFor_cases hset with hmem | ⟨rfl, -⟩
        · exact h.set hmem
        · exact fits_newSet hconfig hr _
      exact (hold.enter hr hnumber _ call regions).refresh
  | change hset hcycle hstep =>
      exact (h.set hset).modify hcycle (hc.nodup _ hset) hstep.keeps.2.1
        (hstep.fits (h.items _ hset _ hcycle))
  | catalog hset hcycle _ hstep =>
      exact ((h.set hset).modify hcycle (hc.nodup _ hset) hstep.keeps.2.1
        (hstep.fits (h.items _ hset _ hcycle))).refresh
  | drop hset hcycle => exact ((h.set hset).erase _).refresh
  | @grow set cycle region space table hset hcycle hregion hgranules hfill =>
      have hfits := h.items _ hset _ hcycle
      refine (h.set hset).modify hcycle (hc.nodup _ hset) rfl { hfits with highestGranule := ?_ }
      exact Nat.max_lt.2 ⟨hfits.highestGranule, Nat.lt_of_le_of_lt hgranules hfits.maxGranules⟩
  | guard hset guarded => exact (h.set hset).guarded guarded

/-- **Every step keeps the catalog recordable.** -/
theorem recordable (hs : Step call c set space last) (h : Recordable c) (hc : c.Indexed)
    (hconfig : c.config.defaultMaxRange < 2 ^ 18) :
    Recordable ({ c with space := space, lastFile := last }.put set) :=
  h.put hc.ordered (hs.recordableSet h hc hconfig)

/-- **Every step at a time that fits keeps the readings of the clock fit.** -/
theorem timed (hs : Step call c set space last) (hc : c.Indexed) (hnow : call.now < 2 ^ 36)
    (h : ∀ set ∈ c.sets, ∀ d ∈ set.cycles, d.item.Timed) :
    ∀ s ∈ ({ c with space := space, lastFile := last }.put set).sets,
      ∀ d ∈ s.cycles, d.item.Timed := by
  have hset : ∀ d ∈ set.cycles, d.item.Timed := by
    cases hs with
    | @enter r old number newest regions _ hr hset hnumber htracks hspace =>
        exact forall_cycles_enter h hset (timed_fileCycle r old.lead number _ hnow regions)
    | change hset hcycle hstep =>
        exact FileSet.forall_cycles_modify (h _ hset) (hstep.timed hnow (h _ hset _ hcycle))
    | catalog hset hcycle _ hstep =>
        exact FileSet.forall_cycles_modify (h _ hset) (hstep.timed hnow (h _ hset _ hcycle))
    | drop hset hcycle =>
        intro d hd
        exact h _ hset d (FileSet.mem_cycles_erase.1 hd).1
    | grow hset hcycle hregion hgranules hfill =>
        obtain ⟨written, -, cataloged⟩ := h _ hset _ hcycle
        exact FileSet.forall_cycles_modify (h _ hset) ⟨written, hnow, cataloged⟩
    | guard hset guarded =>
        intro d hd
        obtain ⟨e, he, rfl⟩ := List.mem_map.1 hd
        obtain ⟨written, reference, cataloged⟩ := h _ hset e he
        exact ⟨written, reference, cataloged⟩
  exact forall_sets_put hc.ordered h hset

end Step

end Catalog

end FileDirectory
