/-
**Recovering a directory from its medium.**

A directory is recovered after the executive stops, cleanly or not.  No run survives a stop, so all
assignments are forgotten; a cycle that was assigned and had been written is marked, since its
contents cannot be trusted blindly.  Cycles that were being cataloged or dropped are dropped, file
sets without cycles go, and the records of what is left are written again.

Recovery reads the whole medium before it writes anything.  Records that contradict one another, or
belong to nothing, make it fail; only backup records that belong to nothing are cleared.

Main definitions:

* `FileDirectory.Record.tag` — what no two records on a medium may have in common;
* `FileDirectory.Recovery.read` — the records of a medium;
* `FileDirectory.Recovery.rebuild` — the catalog that the records describe;
* `FileDirectory.Directory.recover` — the recovered directory, on its medium.

Main results:

* `FileDirectory.Directory.recover_of_read_error`, `FileDirectory.Directory.recover_of_rebuild_error`
  — a medium that cannot be read or makes no sense is left alone.
-/

import FileDirectory.Directory

set_option autoImplicit false

namespace FileDirectory

/-! ### Telling records apart -/

/-- What a record is a record of. -/
inductive RecordTag where
  | lead (name : SetName)
  | main (key : CycleKey)
  | backup (key : CycleKey)
  | allocation (key : CycleKey) (sequence : Nat)
  deriving DecidableEq, Repr

/-- What a record is a record of; no two records on a medium have the same tag. -/
def Record.tag : Record → RecordTag
  | .lead item => .lead item.name
  | .main item => .main item.key
  | .backup key _ => .backup key
  | .allocation key sequence _ => .allocation key sequence

namespace Recovery

/-! ### Reading the records -/

/-- A record and the sector that holds it. -/
structure Found where
  sector : Nat
  record : Record
  deriving DecidableEq, Repr

/-- The records in the given sectors, none of which may have a tag among those seen. -/
def readFrom (device : Device) (seen : List RecordTag) : List Nat → Except Failure (List Found)
  | [] => .ok []
  | sector :: sectors =>
    match device.read sector with
    | .error e => .error (.medium e)
    | .ok content =>
      match Record.ofSector content with
      | .error e => .error (.malformedRecord e)
      | .ok none => readFrom device seen sectors
      | .ok (some record) =>
        if record.tag ∈ seen then .error (.inconsistent (.duplicateRecord sector))
        else (⟨sector, record⟩ :: ·) <$> readFrom device (record.tag :: seen) sectors

/-- The records of a medium. -/
def read (device : Device) : Except Failure (List Found) :=
  readFrom device [] (List.range device.sectorCount)

/-! ### Sorting the records out -/

/-- The lead items among the records, with their sectors, by name. -/
def leads (found : List Found) : List (LeadItem × Nat) :=
  (found.filterMap fun f =>
    match f.record with
    | .lead item => some (item, f.sector)
    | _ => none).mergeSort fun a b => (compare a.1.name b.1.name).isLE

/-- The main items among the records, with their sectors, by name and cycle. -/
def mains (found : List Found) : List (MainItem × Nat) :=
  (found.filterMap fun f =>
    match f.record with
    | .main item => some (item, f.sector)
    | _ => none).mergeSort fun a b => (compare a.1.key b.1.key).isLE

/-- The backup records among the records, with their sectors. -/
def backups (found : List Found) : List (CycleKey × BackupInfo × Nat) :=
  found.filterMap fun f =>
    match f.record with
    | .backup key info => some (key, info, f.sector)
    | _ => none

/-- An allocation record with its sector. -/
structure FoundExtents where
  key : CycleKey
  sequence : Nat
  extents : List Extent
  sector : Nat
  deriving DecidableEq, Repr

/-- The allocation records among the records. -/
def allocations (found : List Found) : List FoundExtents :=
  found.filterMap fun f =>
    match f.record with
    | .allocation key sequence extents => some ⟨key, sequence, extents, f.sector⟩
    | _ => none

/-- The allocation records of a cycle, in their order. -/
def allocationsOf (found : List Found) (key : CycleKey) : List FoundExtents :=
  ((allocations found).filter fun a => a.key = key).mergeSort fun a b => a.sequence ≤ b.sequence

/-- A main item and all its sectors. -/
structure Placed where
  item : MainItem
  sectors : List Nat
  deriving DecidableEq, Repr

/-- A main item with its backup information and its extents, and all its sectors. -/
def assemble (found : List Found) (main : MainItem × Nat) : Except Inconsistency Placed :=
  let key := main.1.key
  match (backups found).lookup key with
  | none => .error (.noBackup key)
  | some (info, backupSector) =>
    let parts := allocationsOf found key
    if (leads found).any fun lead => lead.1.name = key.set then
      .ok {
        item := { main.1 with
          backup := info
          table := (parts.flatMap FoundExtents.extents).foldl ExtentTable.insert main.1.table }
        sectors := main.2 :: backupSector :: parts.map FoundExtents.sector }
    else .error (.noLead key)

/-- All main items, by name and cycle, if every allocation record belongs to one of them. -/
def assembleAll (found : List Found) : Except Inconsistency (List Placed) := do
  let placed ← (mains found).mapM (assemble found)
  match (allocations found).find? fun a => !(mains found).any fun main => main.1.key = a.key with
  | some a => .error (.orphanAllocations a.key)
  | none => .ok placed

/-- The sectors of the backup records that belong to no cycle. -/
def strayBackups (found : List Found) : List Nat :=
  ((backups found).filter fun b => !(mains found).any fun main => main.1.key = b.1).map
    fun b => b.2.2

/-! ### Rebuilding the catalog -/

/-- The catalog as far as it has been rebuilt, the sectors of its file sets and the sectors that are
to be cleared. -/
structure Rebuilt where
  catalog : Catalog
  placed : List (SetName × Placement) := []
  cleared : List Nat := []
  deriving DecidableEq, Repr

/-- Claims regions of the pack in turn; fails with the first one that is not free. -/
def claimAll (space : FreeSpace) : List Region → Except Region FreeSpace
  | [] => .ok space
  | r :: rs =>
    match space.claim r with
    | (true, space) => claimAll space rs
    | (false, _) => .error r

/-- A main item after a stop: nobody has the cycle assigned any more. -/
def afterStop (m : MainItem) : MainItem :=
  { m with
    assigned := 0
    disable := { m.disable with
      assignedWrittenAtStop :=
        m.disable.assignedWrittenAtStop || (m.assigned ≠ 0 && m.fileFlags.written) } }

/-- A file set while its cycles are being recovered. -/
structure SetInProgress where
  space : FreeSpace
  lastFile : Nat
  set : FileSet
  placement : Placement
  cleared : List Nat := []
  deriving DecidableEq, Repr

/-- Recovers one cycle of a file set: a live one is taken over with the next identifier and claims
its tracks; the sectors of any other are to be cleared. -/
def addCycle (s : SetInProgress) (placed : Placed) : Except Inconsistency SetInProgress :=
  if placed.item.state = .live then
    match claimAll s.space placed.item.table.packRegions with
    | .error r => .error (.tracksNotFree placed.item.key r)
    | .ok space =>
      let file : FileId := ⟨s.lastFile + 1⟩
      let cycle : FileCycle := { file := file, item := afterStop placed.item }
      .ok { s with
        space := space
        lastFile := file.number
        set := { s.set with cycles := s.set.cycles ++ [cycle] }
        placement := { s.placement with
          cycles := s.placement.cycles ++ [(file, placed.sectors)] } }
  else .ok { s with cleared := s.cleared ++ placed.sectors }

/-- Recovers one file set with those of the main items that are its own; a set that has no cycle
left goes. -/
def addSet (items : List Placed) (r : Rebuilt) (lead : LeadItem × Nat) :
    Except Inconsistency Rebuilt := do
  let s ← (items.filter fun placed => placed.item.key.set = lead.1.name).foldlM addCycle {
    space := r.catalog.space
    lastFile := r.catalog.lastFile
    set := { lead := lead.1 }
    placement := { lead := some lead.2 } }
  let catalog := { r.catalog with space := s.space, lastFile := s.lastFile }
  if s.set.cycles.isEmpty then
    return { r with catalog := catalog, cleared := r.cleared ++ s.cleared ++ [lead.2] }
  return {
    catalog := { catalog with sets := catalog.sets ++ [s.set.refresh] }
    placed := r.placed ++ [(lead.1.name, s.placement)]
    cleared := r.cleared ++ s.cleared }

/-- The catalog that the records describe. -/
def rebuild (config : Configuration) (found : List Found) : Except Inconsistency Rebuilt := do
  let items ← assembleAll found
  (leads found).foldlM (addSet items) {
    catalog := Catalog.empty config
    cleared := strayBackups found }

/-! ### Writing the records again -/

/-- The sectors that hold records. -/
def inUse (device : Device) (found : List Found) : SectorMap :=
  (List.range device.sectorCount).map fun sector => found.any fun f => f.sector = sector

/-- Stages the records of file sets in turn. -/
def stageAll (s : Store) (staging : Staging) : List FileSet → Store × Staging
  | [] => (s, staging)
  | set :: sets =>
    let (p, staging) := s.stageSet staging set (s.placement set.name)
    stageAll (s.place set.name (some p)) staging sets

end Recovery

namespace Directory

open Recovery

/-- Recovers a directory from a medium, which is also given back, since records are written again
even if that fails in the end. -/
def recover (config : Configuration) (device : Device) : Except Failure Directory × Device :=
  match Recovery.read device with
  | .error f => (.error f, device)
  | .ok found =>
    match rebuild config found with
    | .error e => (.error (.inconsistent e), device)
    | .ok r =>
      let store : Store := { device := device, inUse := inUse device found, placed := r.placed }
      let staging := Staging.free { inUse := store.inUse } r.cleared
      let (store, staging) := stageAll store staging r.catalog.sets
      let (store, failures) := store.flush staging
      match Store.report failures staging.shortages with
      | some f => (.error f, store.device)
      | none =>
        let index := Index.ofSets r.catalog.sets
        (.ok { catalog := r.catalog, index := index, store := some store }, store.device)

/-- A medium that cannot be read is left alone. -/
theorem recover_of_read_error {config : Configuration} {device : Device} {f : Failure}
    (h : Recovery.read device = .error f) : recover config device = (.error f, device) := by
  simp [recover, h]

/-- A medium whose records contradict one another is left alone. -/
theorem recover_of_rebuild_error {config : Configuration} {device : Device} {found : List Found}
    {e : Inconsistency} (hread : Recovery.read device = .ok found)
    (hbuild : rebuild config found = .error e) :
    recover config device = (.error (.inconsistent e), device) := by
  simp [recover, hread, hbuild]

end Directory

end FileDirectory
