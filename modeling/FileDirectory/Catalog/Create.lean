/-
**Creating cycles.**

A cycle is created in a new file set or added to an existing one of the same type and keys.  A tape
cycle is first being cataloged; a temporary disk file is live at once and has its initial reserve of
granules allocated.  Either is assigned to the caller.

Main definitions:

* `FileDirectory.TapeRequest`, `FileDirectory.DiskRequest` — what a caller asks for;
* `FileDirectory.Creation` — what both kinds of request come down to;
* `FileDirectory.Catalog.create` — checks a creation and adds the cycle;
* `FileDirectory.Catalog.createTape`, `FileDirectory.Catalog.createDisk` — the two operations.

Main results:

* `FileDirectory.Catalog.answer_enter` — a created cycle has the identifier after the last one.
-/

import FileDirectory.Catalog
import FileDirectory.Catalog.Argument
import FileDirectory.Text.Fieldata

set_option autoImplicit false

namespace FileDirectory

/-! ### Requests -/

/-- A request for a cycle of a tape file. -/
structure TapeRequest where
  qualifier : String
  filename : String
  cycle : CycleSpec
  readKey : String := ""
  writeKey : String := ""
  /-- The range of a new file set; zero asks for the default. -/
  maxCycles : Nat := 0

/-- A request for a temporary disk file. -/
structure DiskRequest where
  qualifier : String
  filename : String
  cycle : CycleSpec
  granularity : Granularity
  /-- The granules that are allocated at once. -/
  initialReserve : Nat
  maxGranules : Nat

/-- A cycle that is to be created. -/
structure Creation where
  operation : Operation
  name : SetName
  cycle : CycleSpec
  fileType : FileType
  readKey : String := ""
  writeKey : String := ""
  maxRange : Nat
  state : CycleState
  granularity : Granularity := .track
  initialReserve : Nat := 0
  maxGranules : Nat := 0

namespace Creation

/-- The file set that a creation makes if there is none of its name. -/
def newSet (r : Creation) (client : Client) : FileSet where
  lead := {
    name := r.name
    projectId := Fieldata.stored client.run 2
    fileType := r.fileType
    maxRange := r.maxRange
    readKey := r.readKey
    writeKey := r.writeKey }

/-- A cycle is added only to a file set of its type and under the keys of the set. -/
def checkSet (r : Creation) (set : FileSet) : Except Failure Unit :=
  if set.lead.fileType ≠ r.fileType then .error (.setHasType set.name set.lead.fileType)
  else if keyAccepted set.lead.readKey r.readKey && keyAccepted set.lead.writeKey r.writeKey then
    .ok ()
  else .error (.keysDiffer set.name)

/-- The item of the created cycle, its initial reserve on the given regions of the pack. -/
def item (r : Creation) (lead : LeadItem) (number : Nat) (call : Call) (regions : List Region) :
    MainItem :=
  let new := { MainItem.ofLead lead number r.state with
    accountId := Fieldata.stored call.client.user 2
    catalogTime := if r.state = .cataloging then 0 else call.now }
  if r.fileType = .massStorage then
    { new with
      characteristics := { granularity := r.granularity }
      initialGranules := r.initialReserve
      maxGranules := r.maxGranules
      highestGranule := r.initialReserve
      table := new.table.insertRegions 0 regions }
  else new

/-- The created cycle, assigned to the caller. -/
def fileCycle (r : Creation) (lead : LeadItem) (number : Nat) (file : FileId) (call : Call)
    (regions : List Region) : FileCycle :=
  FileCycle.assign
    { file := file
      item := r.item lead number call regions
      creator := if r.state = .cataloging then some call.client else none }
    call.client call.now

end Creation

namespace Catalog

/-! ### Creating -/

/-- The file set that a creation goes into. -/
def setFor (c : Catalog) (r : Creation) (client : Client) : Except Failure FileSet :=
  match c.find? r.name with
  | some set => do
    r.checkSet set
    return set
  | none => .ok (r.newSet client)

/-- The catalog once a cycle of the given number has been added to a file set, its initial reserve
on the given regions of the pack, which leave the given space free. -/
def enter (c : Catalog) (call : Call) (r : Creation) (set : FileSet) (number : Nat) (newest : Bool)
    (regions : List Region) (space : FreeSpace) : Change FileId :=
  let file : FileId := ⟨c.lastFile + 1⟩
  let cycle := r.fileCycle set.lead number file call regions
  let lead := if newest then { set.lead with highest := number } else set.lead
  let set : FileSet := { lead := lead, cycles := set.cycles ++ [cycle] }
  { catalog := { c with space := space, lastFile := file.number }.put set.refresh
    touched := r.name
    answer := file
    notes := [.assigned call.client file]
    moved := some (.entered r.name file) }

/-- A created cycle has the identifier after the last one that was given out. -/
@[simp] theorem answer_enter (c : Catalog) (call : Call) (r : Creation) (set : FileSet)
    (number : Nat) (newest : Bool) (regions : List Region) (space : FreeSpace) :
    (c.enter call r set number newest regions space).answer = ⟨c.lastFile + 1⟩ := rfl

/-- Creates a cycle and assigns it to the caller. -/
def create (c : Catalog) (call : Call) (r : Creation) : Except Failure (Change FileId) := do
  call.check r.operation 0
  let tracks := r.initialReserve * c.config.tracksPerGranule r.granularity
  if Word.maxValue < tracks then throw .reserveTooLarge
  let set ← c.setFor r call.client
  let (number, newest) ← set.chooseNew r.cycle
  if r.maxGranules < r.initialReserve then
    throw (.reserveOverMaximum r.initialReserve r.maxGranules)
  call.check r.operation 1
  let some (regions, space) := c.space.allocate tracks | throw (.noRoomForReserve tracks)
  return c.enter call r set number newest regions space

/-- A number of granules that is recorded in a word. -/
def checkGranules (role : GranuleRole) (count : Nat) : Except Failure Nat :=
  if Word.maxValue < count then .error (.tooManyGranules role count) else .ok count

/-- Creates a cycle of a tape file, which the caller is to catalog. -/
def createTape (c : Catalog) (call : Call) (r : TapeRequest) : Except Failure (Change FileId) := do
  if Cycle.highestNumber < r.maxCycles then throw (.rangeTooLarge r.maxCycles)
  let name ← SetName.ofTexts r.qualifier r.filename
  let cycle ← r.cycle.check
  let readKey ← NameRole.key.normalize r.readKey
  let writeKey ← NameRole.key.normalize r.writeKey
  c.create call {
    operation := .createTape
    name := name
    cycle := cycle
    fileType := .tape
    readKey := readKey
    writeKey := writeKey
    maxRange := if r.maxCycles = 0 then c.config.defaultMaxRange else r.maxCycles
    state := .cataloging }

/-- Creates a temporary disk file. -/
def createDisk (c : Catalog) (call : Call) (r : DiskRequest) : Except Failure (Change FileId) := do
  let name ← SetName.ofTexts r.qualifier r.filename
  let cycle ← r.cycle.check
  let initialReserve ← checkGranules .initialReserve r.initialReserve
  let maxGranules ← checkGranules .maximum r.maxGranules
  c.create call {
    operation := .createDisk
    name := name
    cycle := cycle
    fileType := .massStorage
    maxRange := c.config.defaultMaxRange
    state := .live
    granularity := r.granularity
    initialReserve := initialReserve
    maxGranules := maxGranules }

end Catalog

end FileDirectory
