/-
**Control records.**

The directory is recorded in control records, one to a sector.  The first sixth of a sector says
what it holds; a sector of zeros is free.  A file set has a lead record, and each of its cycles has
an identity record, a backup record and as many allocation records as its extents need, seven to a
record.  Every record repeats the names that it belongs to, so that it can be attributed by itself.

Main definitions:

* `FileDirectory.Record` — what a sector holds;
* `FileDirectory.LeadItem.record` — the record of a lead item;
* `FileDirectory.MainItem.records` — the records of a main item, in the order of their sectors;
* `FileDirectory.Record.ofSector` — the record that a sector holds.

Main results:

* `FileDirectory.MainItem.length_records` — how many records a main item has.
-/

import FileDirectory.Failure
import FileDirectory.Text.Fieldata

set_option autoImplicit false

namespace FileDirectory

/-- What a sector holds. -/
inductive Record where
  | lead (item : LeadItem)
  /-- A main item as far as its identity record tells. -/
  | main (item : MainItem)
  | backup (key : CycleKey) (info : BackupInfo)
  | allocation (key : CycleKey) (sequence : Nat) (extents : List Extent)
  deriving DecidableEq, Repr

namespace Record

/-! ### The parts that records share -/

/-- The code of a lead record. -/
def leadCode : Nat := 1
/-- The code of an identity record. -/
def identityCode : Nat := 2
/-- The code of a backup record. -/
def backupCode : Nat := 3
/-- The code of an allocation record. -/
def allocationCode : Nat := 4

/-- The first word of a record. -/
def header (code cycle : Nat) : Word := ((0 : Word).put .s1 code).put .h2 cycle

/-- The name of a file set, in four words. -/
def nameWords (name : SetName) : List Word :=
  Fieldata.encode name.qualifier 2 ++ Fieldata.encode name.filename 2

@[simp] theorem length_nameWords (name : SetName) : (nameWords name).length = 4 := by
  simp [nameWords]

/-- The text in `count` words of a sector from `start` on. -/
def textAt (s : Sector) (start count : Nat) : String := Fieldata.decode (s.run start count)

/-- The name of the file set that a record belongs to. -/
def nameOf (s : Sector) : SetName := ⟨textAt s 1 2, textAt s 3 2⟩

/-- The name of the cycle that a record belongs to. -/
def keyOf (s : Sector) : CycleKey := ⟨nameOf s, s[0].get .h2⟩

end Record

namespace Sector

/-- The code of what a sector holds, zero for a free one. -/
def code (s : Sector) : Nat := s[0].get .s1

/-- The number of an allocation record among those of its cycle. -/
def sequence (s : Sector) : Nat := s[0].get .s2

/-- The descriptor flags of an identity record. -/
def descriptor (s : Sector) : DescriptorFlags := DescriptorFlags.extract (s[10].get .h1)

end Sector

open Record

/-! ### Lead records -/

namespace LeadItem

/-- The flags of a lead item, a field of six bits. -/
def flags (lead : LeadItem) : Nat :=
  flagBit lead.guarded 5 + flagBit lead.plusOneExists 4 + flagBit lead.renameInProgress 3 +
    flagBit (lead.directory = .shared) 2 + flagBit (lead.access = .private) 1

/-- The record of a lead item whose window spans `range` cycle numbers and holds `count` counted
cycles. -/
def record (lead : LeadItem) (range count : Nat) : Sector :=
  Sector.ofWords (
    [header leadCode 0] ++ nameWords lead.name ++ Fieldata.encode lead.projectId 2 ++
    Fieldata.encode lead.readKey 1 ++ Fieldata.encode lead.writeKey 1 ++
    [(((0 : Word).put .s1 lead.fileType.code).put .s2 lead.flags).put .h2 lead.maxRange,
      ((0 : Word).put .h1 lead.highest).put .h2 range,
      (0 : Word).put .h1 count])

/-- The lead item of a lead record. -/
def ofSector (s : Sector) : Except RecordFault LeadItem :=
  match FileType.ofCode? (s[9].get .s1) with
  | none => .error (.leadFileType (s[9].get .s1))
  | some fileType =>
    let flags := s[9].get .s2
    .ok {
      name := nameOf s
      projectId := textAt s 5 2
      fileType := fileType
      maxRange := s[9].get .h2
      readKey := textAt s 7 1
      writeKey := textAt s 8 1
      highest := s[10].get .h1
      guarded := flags.testBit 5
      plusOneExists := flags.testBit 4
      renameInProgress := flags.testBit 3
      directory := if flags.testBit 2 then .shared else .local
      access := if flags.testBit 1 then .private else .public }

end LeadItem

/-! ### Records of a main item -/

/-- The number of extents that an allocation record holds. -/
def extentsPerRecord : Nat := 7

/-- Extents in groups of as many as a record holds. -/
def extentGroups : List Extent → List (List Extent)
  | [] => []
  | e :: es => (e :: es.take (extentsPerRecord - 1)) :: extentGroups (es.drop (extentsPerRecord - 1))
  termination_by es => es.length
  decreasing_by
    simp only [List.length_drop, List.length_cons]
    omega

@[simp] theorem extentGroups_nil : extentGroups [] = [] := by rw [extentGroups]

theorem extentGroups_cons (e : Extent) (es : List Extent) :
    extentGroups (e :: es) =
      (e :: es.take (extentsPerRecord - 1)) :: extentGroups (es.drop (extentsPerRecord - 1)) := by
  rw [extentGroups]

/-- Extents take a record for every seven of them, the last one perhaps not full. -/
theorem length_extentGroups (es : List Extent) :
    (extentGroups es).length = (es.length + (extentsPerRecord - 1)) / extentsPerRecord := by
  fun_induction extentGroups es with
  | case1 => rfl
  | case2 e es ih =>
    rw [List.length_cons, ih]
    simp only [List.length_cons, List.length_drop, extentsPerRecord]
    omega

namespace MainItem

/-- The record that identifies a cycle. -/
def identityRecord (m : MainItem) : Sector :=
  Sector.ofWords (
    [header identityCode m.key.cycle] ++ nameWords m.key.set ++ Fieldata.encode m.projectId 2 ++
    Fieldata.encode m.accountId 2 ++
    [Word.join Field.sixths [m.fileType.code, m.characteristics.compose, m.disable.compose,
        m.inhibit.compose, m.fileFlags.compose, 0],
      ((0 : Word).put .h1 m.descriptor.compose).put .h2 m.placement] ++
    Fieldata.encode m.assignMnemonic 1 ++
    [(0 : Word).put .h1 m.assigned, Word.ofNat m.cumulativeAssigns,
      Word.ofNat m.timeOfFirstWrite, Word.ofNat m.lastReference, Word.ofNat m.catalogTime,
      Word.ofNat m.initialGranules, Word.ofNat m.maxGranules, Word.ofNat m.highestGranule,
      Word.ofNat m.highestTrackWritten])

/-- The record of the backup of a cycle. -/
def backupRecord (m : MainItem) : Sector :=
  Sector.ofWords (
    [header backupCode m.key.cycle] ++ nameWords m.key.set ++
    [Word.ofNat m.backup.creationTime,
      ((0 : Word).put .s1 m.backup.maxLevels).put .s2 m.backup.currentLevels,
      Word.ofNat m.backup.textBlockCount, Word.ofNat m.backup.startingPosition] ++
    Fieldata.encode m.backup.reels.1 1 ++ Fieldata.encode m.backup.reels.2 1)

/-- The three words of an extent. -/
def extentWords (e : Extent) : List Word :=
  [Word.ofNat e.fileTrack, Word.ofNat e.packTrack, Word.ofNat e.count]

/-- The allocation record of the given extents, the one with the given number. -/
def allocationRecord (key : CycleKey) (sequence : Nat) (extents : List Extent) : Sector :=
  Sector.ofWords (
    [(header allocationCode key.cycle).put .s2 sequence] ++ nameWords key.set ++
    [(0 : Word).put .h1 extents.length] ++ extents.flatMap extentWords)

/-- The allocation records of a main item, none for a file without tracks. -/
def allocationRecords (m : MainItem) : List Sector :=
  (extentGroups m.table.extents).mapIdx (allocationRecord m.key)

/-- All records of a main item, in the order of their sectors. -/
def records (m : MainItem) : List Sector :=
  m.identityRecord :: m.backupRecord :: m.allocationRecords

/-- The number of sectors that the records of a main item take. -/
def sectorsNeeded (m : MainItem) : Nat :=
  2 + (m.table.extents.length + (extentsPerRecord - 1)) / extentsPerRecord

/-- A main item has two records and one more for every seven extents. -/
theorem length_records (m : MainItem) : m.records.length = m.sectorsNeeded := by
  simp only [records, allocationRecords, List.length_cons, List.length_mapIdx,
    length_extentGroups, sectorsNeeded]
  omega

/-- The main item of an identity record, without its backup and its extents.  The state of the cycle
follows from the descriptor flags. -/
def ofSector (s : Sector) : Except RecordFault MainItem :=
  match FileType.ofCode? (s[9].get .s1) with
  | none => .error (.mainFileType (s[9].get .s1))
  | some fileType =>
    let descriptor := s.descriptor
    .ok {
      key := keyOf s
      state :=
        if descriptor.toBeCataloged then .cataloging
        else if descriptor.toBeDropped then .dropping
        else .live
      fileType := fileType
      projectId := textAt s 5 2
      accountId := textAt s 7 2
      characteristics := Characteristics.extract (s[9].get .s2)
      disable := DisableFlags.extract (s[9].get .s3)
      inhibit := InhibitFlags.extract (s[9].get .s4)
      fileFlags := FileFlags.extract (s[9].get .s5)
      descriptor := descriptor
      placement := s[10].get .h2
      assignMnemonic := textAt s 11 1
      assigned := s[12].get .h1
      cumulativeAssigns := s[13].toNat
      timeOfFirstWrite := s[14].toNat
      lastReference := s[15].toNat
      catalogTime := s[16].toNat
      initialGranules := s[17].toNat
      maxGranules := s[18].toNat
      highestGranule := s[19].toNat
      highestTrackWritten := s[20].toNat }

end MainItem

namespace BackupInfo

/-- The backup information of a backup record. -/
def ofSector (s : Sector) : BackupInfo where
  creationTime := s[5].toNat
  maxLevels := s[6].get .s1
  currentLevels := s[6].get .s2
  textBlockCount := s[7].toNat
  startingPosition := s[8].toNat
  reels := (textAt s 9 1, textAt s 10 1)

end BackupInfo

namespace Record

/-! ### Reading a record -/

/-- The first `count` extents in a run of words. -/
def extentsOf : Nat → List Word → List Extent
  | count + 1, file :: pack :: tracks :: ws =>
    ⟨file.toNat, pack.toNat, tracks.toNat⟩ :: extentsOf count ws
  | _, _ => []

end Record

/-- The extents that an allocation record has room for, as many as it says. -/
def Sector.extents (s : Sector) : List Extent :=
  extentsOf (s[5].get .h1) (s.run 6 (3 * extentsPerRecord))

namespace Record

/-- The extents of an allocation record. -/
def extentsAt (s : Sector) : Except RecordFault (List Extent) :=
  let count := s[5].get .h1
  if extentsPerRecord < count then .error (.extentCount count) else .ok s.extents

/-- The record that a sector holds, if it is not free. -/
def ofSector (s : Sector) : Except RecordFault (Option Record) :=
  match s.code with
  | 0 => .ok none
  | 1 => (LeadItem.ofSector s).map fun item => some (.lead item)
  | 2 => (MainItem.ofSector s).map fun item => some (.main item)
  | 3 => .ok (some (.backup (keyOf s) (BackupInfo.ofSector s)))
  | 4 => (extentsAt s).map fun extents => some (.allocation (keyOf s) s.sequence extents)
  | code => .error (.recordType code)

end Record

end FileDirectory
