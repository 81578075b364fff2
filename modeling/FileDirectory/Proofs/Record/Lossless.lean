/-
**Records that lose nothing.**

A record has a field of its own for each thing that it says, so whatever fits into the fields of an item
is read from its records as it was: every flag, every number, and every text that the character set and
its words can hold.  Only how often a cycle is assigned at the moment is cut down to the half word it is
given.  The extents of a cycle follow one another through its allocation records, seven to a record.

Main definitions:

* `FileDirectory.LeadItem.Lossless`, `FileDirectory.BackupInfo.Lossless`,
  `FileDirectory.MainItem.Lossless` — whatever is in an item has room in its records.

Main results:

* `FileDirectory.LeadItem.Lossless.stored_eq`, `FileDirectory.MainItem.Lossless.stored_eq` — what reads
  back of such items is themselves;
* `FileDirectory.Record.ofSector_of_lossless` — **what was recorded is what is read**.
-/

import FileDirectory.Proofs.Catalog.Recordable

set_option autoImplicit false

namespace FileDirectory

/-! ### Texts -/

/-- A text is what some text reads back as from `count` words. -/
def Fieldata.Holds (count : Nat) (s : String) : Prop := ∃ text, s = Fieldata.stored text count

/-- A text is what a caller's text becomes in its role. -/
def NameRole.Yields (role : NameRole) (s : String) : Prop := ∃ text, role.normalize text = .ok s

theorem Fieldata.Holds.stored_eq {count : Nat} {s : String} (h : Holds count s) :
    stored s count = s := by
  obtain ⟨text, rfl⟩ := h
  exact stored_stored text count

theorem NameRole.Yields.fits {role : NameRole} {s : String} (h : role.Yields s) :
    role.Fits s.toList := by
  obtain ⟨text, htext⟩ := h
  obtain ⟨hfits, rfl⟩ := normalize_eq_ok_iff.1 htext
  rwa [String.toList_ofList]

theorem NameRole.Yields.stored_eq {role : NameRole} {s : String} (h : role.Yields s) {count : Nat}
    (hcount : role.maxLength ≤ 6 * count) : Fieldata.stored s count = s :=
  Fieldata.stored_of_fits h.fits hcount

/-! ### Lead items -/

/-- Whatever is in a lead item has room in its record: names and keys are as the directory accepts them,
and the project is named in Fieldata. -/
structure LeadItem.Lossless (lead : LeadItem) : Prop where
  qualifier : NameRole.qualifier.Yields lead.name.qualifier
  filename : NameRole.filename.Yields lead.name.filename
  readKey : NameRole.key.Yields lead.readKey
  writeKey : NameRole.key.Yields lead.writeKey
  projectId : Fieldata.Holds 2 lead.projectId
  maxRange : lead.maxRange < 2 ^ 18
  highest : lead.highest < 2 ^ 18

/-- A lead item that has room in its record reads back as it is. -/
theorem LeadItem.Lossless.stored_eq {lead : LeadItem} (h : lead.Lossless) : lead.stored = lead := by
  have hfits : lead.Fits := {
    name := stored_name_of_fits h.qualifier.fits h.filename.fits
    projectId := h.projectId.stored_eq
    readKey := h.readKey.stored_eq (by decide)
    writeKey := h.writeKey.stored_eq (by decide)
    maxRange := h.maxRange
    highest := h.highest }
  exact hfits.stored_eq

/-! ### Main items -/

/-- Whatever is known of a backup has room in its record. -/
structure BackupInfo.Lossless (b : BackupInfo) : Prop where
  creationTime : b.creationTime < 2 ^ 36
  maxLevels : b.maxLevels < 2 ^ 6
  currentLevels : b.currentLevels < 2 ^ 6
  textBlockCount : b.textBlockCount < 2 ^ 36
  startingPosition : b.startingPosition < 2 ^ 36
  firstReel : Fieldata.Holds 1 b.reels.1
  secondReel : Fieldata.Holds 1 b.reels.2

theorem BackupInfo.Lossless.stored_eq {b : BackupInfo} (h : b.Lossless) : b.stored = b := by
  rw [stored, Nat.mod_eq_of_lt h.creationTime, Nat.mod_eq_of_lt h.maxLevels,
    Nat.mod_eq_of_lt h.currentLevels, Nat.mod_eq_of_lt h.textBlockCount,
    Nat.mod_eq_of_lt h.startingPosition, h.firstReel.stored_eq, h.secondReel.stored_eq]

/-- The numbers of an extent have room in their words. -/
structure Extent.Lossless (e : Extent) : Prop where
  fileTrack : e.fileTrack < 2 ^ 36
  packTrack : e.packTrack < 2 ^ 36
  count : e.count < 2 ^ 36

theorem Extent.Lossless.stored_eq {e : Extent} (h : e.Lossless) : e.stored = e := by
  rw [stored, Nat.mod_eq_of_lt h.fileTrack, Nat.mod_eq_of_lt h.packTrack, Nat.mod_eq_of_lt h.count]

/-- Whatever is in a main item has room in its records, but for how often it is assigned at the moment.
The cycle has not been dropped, and its descriptor flags are in step with its state. -/
structure MainItem.Lossless (m : MainItem) : Prop where
  state : m.state ≠ .dropped
  toBeCataloged : m.descriptor.toBeCataloged = decide (m.state = .cataloging)
  toBeDropped : m.descriptor.toBeDropped = decide (m.state = .dropping)
  qualifier : Fieldata.Holds 2 m.key.set.qualifier
  filename : Fieldata.Holds 2 m.key.set.filename
  projectId : Fieldata.Holds 2 m.projectId
  accountId : Fieldata.Holds 2 m.accountId
  assignMnemonic : Fieldata.Holds 1 m.assignMnemonic
  cycle : m.key.cycle < 2 ^ 18
  placement : m.placement < 2 ^ 18
  cumulativeAssigns : m.cumulativeAssigns < 2 ^ 36
  timeOfFirstWrite : m.timeOfFirstWrite < 2 ^ 36
  lastReference : m.lastReference < 2 ^ 36
  catalogTime : m.catalogTime < 2 ^ 36
  initialGranules : m.initialGranules < 2 ^ 36
  maxGranules : m.maxGranules < 2 ^ 36
  highestGranule : m.highestGranule < 2 ^ 36
  highestTrackWritten : m.highestTrackWritten < 2 ^ 36
  backup : m.backup.Lossless
  extents : ∀ e ∈ m.table.extents, e.Lossless

namespace MainItem.Lossless

variable {m : MainItem} (h : m.Lossless)

include h

theorem key_stored_eq : m.key.stored = m.key := by
  rw [CycleKey.stored, SetName.stored, h.qualifier.stored_eq, h.filename.stored_eq,
    Nat.mod_eq_of_lt h.cycle]

/-- The state follows from the descriptor flags. -/
theorem state_eq : m.descriptor.state = m.state := by
  rw [DescriptorFlags.state, h.toBeCataloged, h.toBeDropped]
  have hstate := h.state
  cases hm : m.state with
  | dropped => exact absurd hm hstate
  | _ => rfl

/-- The identity record of a main item with room in it says all but the backup and the extents. -/
theorem stored_eq :
    m.stored = { m with assigned := m.assigned % 2 ^ 18, backup := {}, table := {} } := by
  rw [stored, h.key_stored_eq, h.state_eq, h.projectId.stored_eq, h.accountId.stored_eq,
    h.assignMnemonic.stored_eq, Nat.mod_eq_of_lt h.placement, Nat.mod_eq_of_lt h.cumulativeAssigns,
    Nat.mod_eq_of_lt h.timeOfFirstWrite, Nat.mod_eq_of_lt h.lastReference,
    Nat.mod_eq_of_lt h.catalogTime, Nat.mod_eq_of_lt h.initialGranules,
    Nat.mod_eq_of_lt h.maxGranules, Nat.mod_eq_of_lt h.highestGranule,
    Nat.mod_eq_of_lt h.highestTrackWritten]

/-- The extents of a group are read as they were. -/
theorem stored_group {group : List Extent} (hgroup : group ∈ extentGroups m.table.extents) :
    group.map Extent.stored = group := by
  refine (List.map_congr_left ?_).trans (List.map_id group)
  intro e he
  have hmem : e ∈ m.table.extents := by
    rw [← (extentGroups_spec m.table.extents).1]
    exact List.mem_flatten_of_mem hgroup he
  exact (h.extents e hmem).stored_eq

/-- Each allocation record is read as its group of extents. -/
theorem ofSector_allocationRecords :
    m.allocationRecords.map Record.ofSector =
      (extentGroups m.table.extents).mapIdx fun i extents =>
        .ok (some (.allocation m.key (i % 2 ^ 6) extents)) := by
  rw [MainItem.allocationRecords]
  refine List.ext_getElem (by simp) fun i h₁ h₂ => ?_
  rw [List.length_map, List.length_mapIdx] at h₁
  have hgroup := List.getElem_mem h₁
  rw [List.getElem_map, List.getElem_mapIdx, List.getElem_mapIdx,
    Record.ofSector_allocationRecord m.key i ((extentGroups_spec m.table.extents).2 _ hgroup).2,
    h.key_stored_eq, h.stored_group hgroup]

end MainItem.Lossless

/-! ### What is read -/

/-- **What was recorded is what is read.**  The record of a lead item yields the lead item, whatever
else it says of the window.  The identity record of a main item yields all that it records, with the low
half of how often the cycle is assigned; the backup record yields the backup.  The allocation records
yield the extents, one group after another, in as many sectors as are asked for, each under the name of
the cycle. -/
theorem Record.ofSector_of_lossless :
    (∀ (lead : LeadItem) (range count : Nat), lead.Lossless →
      Record.ofSector (lead.record range count) = .ok (some (.lead lead))) ∧
    ∀ m : MainItem, m.Lossless →
      Record.ofSector m.identityRecord =
        .ok (some (.main { m with assigned := m.assigned % 2 ^ 18, backup := {}, table := {} })) ∧
      Record.ofSector m.backupRecord = .ok (some (.backup m.key m.backup)) ∧
      m.allocationRecords.length = (m.table.extents.length + 6) / 7 ∧
      m.sectorsNeeded = 2 + m.allocationRecords.length ∧
      ∃ groups : List (List Extent), groups.flatten = m.table.extents ∧
        m.allocationRecords.map Record.ofSector =
          groups.mapIdx fun i extents => .ok (some (.allocation m.key (i % 64) extents)) := by
  refine ⟨fun lead range count h => ?_, fun m h => ⟨?_, ?_, ?_, ?_, ?_⟩⟩
  · rw [ofSector_record, h.stored_eq]
  · rw [ofSector_identityRecord, h.stored_eq]
  · rw [ofSector_backupRecord, h.key_stored_eq, h.backup.stored_eq]
  · rw [MainItem.allocationRecords, List.length_mapIdx, length_extentGroups]
    rfl
  · rw [MainItem.allocationRecords, List.length_mapIdx, length_extentGroups, MainItem.sectorsNeeded]
  · exact ⟨extentGroups m.table.extents, (extentGroups_spec m.table.extents).1,
      h.ofSector_allocationRecords⟩

/-- A guarded file set with both keys. -/
def LeadItem.runLog : LeadItem where
  name := ⟨"SYS$", "RUN-LOG"⟩
  projectId := "PROJ1"
  fileType := .massStorage
  maxRange := 12
  readKey := "RK"
  writeKey := "WKEY"
  highest := 998
  guarded := true

/-- A cycle of it that is being dropped and has nine extents. -/
def MainItem.runLog : MainItem :=
  { ofLead .runLog 998 .dropping with
    accountId := "ACCT01"
    timeOfFirstWrite := 1700000001
    fileFlags := { written := true }
    cumulativeAssigns := 1
    assigned := 1
    lastReference := 1700000000
    backup := { maxLevels := 3, reels := ("REEL01", "") }
    table := ⟨(List.range 9).map fun i => ⟨2 * i, 100 + 10 * i, 1⟩⟩ }

theorem LeadItem.lossless_runLog : runLog.Lossless where
  qualifier := ⟨"sys$", NameRole.normalize_eq_ok_iff.2 ⟨by decide, rfl⟩⟩
  filename := ⟨"run-log", NameRole.normalize_eq_ok_iff.2 ⟨by decide, rfl⟩⟩
  readKey := ⟨"rk", NameRole.normalize_eq_ok_iff.2 ⟨by decide, rfl⟩⟩
  writeKey := ⟨"wkey", NameRole.normalize_eq_ok_iff.2 ⟨by decide, rfl⟩⟩
  projectId := ⟨"proj1", by decide +kernel⟩
  maxRange := by decide
  highest := by decide

theorem MainItem.lossless_runLog : runLog.Lossless where
  state := by decide
  toBeCataloged := rfl
  toBeDropped := rfl
  qualifier := ⟨"SYS$", by decide +kernel⟩
  filename := ⟨"RUN-LOG", by decide +kernel⟩
  projectId := ⟨"PROJ1", by decide +kernel⟩
  accountId := ⟨"ACCT01", by decide +kernel⟩
  assignMnemonic := ⟨"", by decide +kernel⟩
  cycle := by decide
  placement := by decide
  cumulativeAssigns := by decide
  timeOfFirstWrite := by decide
  lastReference := by decide
  catalogTime := by decide
  initialGranules := by decide
  maxGranules := by decide
  highestGranule := by decide
  highestTrackWritten := by decide
  backup := ⟨by decide, by decide, by decide, by decide, by decide, ⟨"REEL01", by decide +kernel⟩,
    ⟨"", by decide +kernel⟩⟩
  extents := by
    intro e he
    obtain ⟨i, hi, rfl⟩ := List.mem_map.1 he
    have hlt : i < 9 := List.mem_range.1 hi
    exact ⟨by dsimp only; omega, by dsimp only; omega, by dsimp only; omega⟩

/-- The run log, in two allocation records. -/
theorem Record.ofSector_of_lossless_runLog :
    Record.ofSector (LeadItem.runLog.record 12 3) = .ok (some (.lead .runLog)) ∧
    Record.ofSector MainItem.runLog.identityRecord =
      .ok (some (.main { MainItem.runLog with assigned := 1, backup := {}, table := {} })) ∧
    Record.ofSector MainItem.runLog.backupRecord =
      .ok (some (.backup MainItem.runLog.key MainItem.runLog.backup)) ∧
    MainItem.runLog.allocationRecords.length = 2 ∧
    MainItem.runLog.sectorsNeeded = 2 + MainItem.runLog.allocationRecords.length ∧
    ∃ groups : List (List Extent), groups.flatten = MainItem.runLog.table.extents ∧
      MainItem.runLog.allocationRecords.map Record.ofSector = groups.mapIdx fun i extents =>
        .ok (some (.allocation MainItem.runLog.key (i % 64) extents)) :=
  ⟨ofSector_of_lossless.1 .runLog 12 3 LeadItem.lossless_runLog,
    ofSector_of_lossless.2 .runLog MainItem.lossless_runLog⟩

end FileDirectory
