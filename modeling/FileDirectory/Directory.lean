/-
**The master file directory.**

A directory is a catalog, with the roster of its clients and an index, that may be recorded on a
medium.  An operation changes the catalog first; a change that has taken effect stays even if the
medium cannot be brought up to date with it, and the caller is then told of the error.  The index is
tidied up last, in either case.  Operations are carried out one at a time, so nothing is locked.

Main definitions:

* `FileDirectory.Directory` — a catalog, the roster of its clients, the index and the store that
  records it;
* `FileDirectory.Directory.empty`, `FileDirectory.Directory.format` — an empty directory, in memory
  only or on a medium whose sectors are all cleared;
* `FileDirectory.Directory.perform` — what every operation on a file set does;
* `FileDirectory.Directory.createTape` and the other operations, and
  `FileDirectory.Directory.setInfo` and the other queries;
* `FileDirectory.Directory.find?`, `FileDirectory.Directory.locate?` — looking up through the index.

Main results:

* `FileDirectory.Directory.perform_error` — an operation that the catalog refuses changes nothing;
* `FileDirectory.Directory.catalog_perform_ok` — one that it accepts changes the catalog alike with
  and without a medium.
-/

import FileDirectory.Catalog.Create
import FileDirectory.Catalog.Lifecycle
import FileDirectory.Catalog.Tracks
import FileDirectory.Snapshot
import FileDirectory.Store

set_option autoImplicit false

namespace FileDirectory

/-- A catalog, the roster of its clients, the index and, if it is recorded, its store. -/
structure Directory where
  catalog : Catalog
  roster : Roster := {}
  index : Index := {}
  store : Option Store := none

namespace Directory

/-! ### New directories -/

/-- An empty directory that is kept in memory only. -/
def empty (config : Configuration) : Directory where
  catalog := Catalog.empty config

/-- Clears the given sectors in turn. -/
def clear (device : Device) : List Nat → Except MediumError Device
  | [] => .ok device
  | sector :: sectors =>
    match device.write sector Sector.zero with
    | (.ok (), device) => clear device sectors
    | (.error e, _) => .error e

@[simp] theorem clear_nil (device : Device) : clear device [] = .ok device := rfl

/-- An empty directory on a medium, every sector of which is cleared. -/
def format (config : Configuration) (device : Device) : Except Failure Directory :=
  match clear device (List.range device.sectorCount) with
  | .error e => .error (.medium e)
  | .ok device =>
    .ok {
      catalog := Catalog.empty config
      store := some { device, inUse := List.replicate device.sectorCount false } }

/-! ### Looking up -/

/-- The file set that the index has for a name. -/
def find? (d : Directory) (name : SetName) : Option FileSet :=
  (d.index.named? name).bind fun found => d.catalog.find? found.2.name

/-- The cycle that the index has for an identifier, with its file set. -/
def locate? (d : Directory) (file : FileId) : Option (FileSet × FileCycle) := do
  let (_, node) ← d.index.found? file
  let set ← d.catalog.find? node.name
  let cycle ← set.find? file
  return (set, cycle)

/-- The file sets that the index has, in the order of their names. -/
def listed (d : Directory) : List FileSet :=
  d.index.listed.filterMap fun node => d.catalog.find? node.name

/-! ### Operations -/

/-- Carries out an operation on the catalog, notes it on the roster, follows it in the index and
brings the medium up to date with it. -/
def perform {α : Type} (d : Directory) (outcome : Except Failure (Change α)) :
    Except Failure α × Directory :=
  match outcome with
  | .error f => (.error f, d)
  | .ok change =>
    let roster := d.roster.noteAll change.notes
    let index := (d.index.follow change.moved).settle change.moved
    match d.store with
    | none =>
      (.ok change.answer, { d with catalog := change.catalog, roster := roster, index := index })
    | some store =>
      let (store, trouble) := store.record change.touched (change.catalog.find? change.touched)
      let answer := match trouble with
        | none => .ok change.answer
        | some f => .error f
      (answer, { catalog := change.catalog, roster := roster, index := index, store := some store })

/-- An operation that the catalog refuses changes nothing. -/
@[simp] theorem perform_error {α : Type} (d : Directory) (f : Failure) :
    d.perform (.error f : Except Failure (Change α)) = (.error f, d) := rfl

/-- An operation that the catalog accepts changes it alike with and without a medium. -/
theorem catalog_perform_ok {α : Type} (d : Directory) (change : Change α) :
    (d.perform (.ok change)).2.catalog = change.catalog := by
  unfold perform
  cases d.store <;> rfl

/-- Creates a cycle of a tape file. -/
def createTape (d : Directory) (call : Call) (r : TapeRequest) :
    Except Failure FileId × Directory :=
  d.perform (d.catalog.createTape call r)

/-- Creates a temporary disk file. -/
def createDisk (d : Directory) (call : Call) (r : DiskRequest) :
    Except Failure FileId × Directory :=
  d.perform (d.catalog.createDisk call r)

/-- Assigns a cycle to the caller. -/
def assign (d : Directory) (call : Call) (qualifier filename : String) (spec : CycleSpec)
    (readKey : String) : Except Failure FileId × Directory :=
  d.perform (d.catalog.assign call qualifier filename spec readKey)

/-- Makes a cycle live that the caller is cataloging. -/
def catalogCycle (d : Directory) (call : Call) (file : FileId) :
    Except Failure Unit × Directory :=
  d.perform (d.catalog.catalog call file)

/-- Drops a cycle that the caller is cataloging. -/
def abort (d : Directory) (call : Call) (file : FileId) : Except Failure Unit × Directory :=
  d.perform (d.catalog.abort call file)

/-- Deletes a live cycle. -/
def delete (d : Directory) (call : Call) (qualifier filename : String) (spec : CycleSpec)
    (writeKey : String) : Except Failure Unit × Directory :=
  d.perform (d.catalog.delete call qualifier filename spec writeKey)

/-- Gives up one or all of the caller's assignments of a cycle. -/
def release (d : Directory) (call : Call) (file : FileId) (share : Catalog.Share) :
    Except Failure Unit × Directory :=
  d.perform (d.catalog.release call file share)

/-- Backs file tracks by pack tracks.  What an allocation that is given up has done to the catalog
stays, and the medium is not told. -/
def allocateTracks (d : Directory) (call : Call) (file : FileId) (first count : Nat) :
    Except Failure Unit × Directory :=
  match d.catalog.allocateTracks call file first count with
  | .error halted => (.error halted.failure, { d with catalog := halted.catalog })
  | .ok change => d.perform (.ok change)

/-- Records that the caller wrote file tracks. -/
def markWritten (d : Directory) (call : Call) (file : FileId) (first count : Nat) :
    Except Failure Unit × Directory :=
  d.perform (d.catalog.markWritten call file first count)

/-- Guards a file set, or takes the guard off. -/
def setGuard (d : Directory) (call : Call) (qualifier filename : String) (guarded : Bool)
    (writeKey : String) : Except Failure Unit × Directory :=
  d.perform (d.catalog.setGuard call qualifier filename guarded writeKey)

/-! ### Releasing everything -/

/-- Releases the given cycles in turn, `looks` being how often the deadline has been looked at,
`released` how many cycles have been released and `trouble` the first failure.  A passed deadline
ends it at once; a cycle that is no longer there or no longer assigned is passed over. -/
def releaseEach (call : Call) (d : Directory) (looks released : Nat) (trouble : Option Failure) :
    List FileId → Except Failure Nat × Directory
  | [] =>
    match trouble with
    | some f => (.error f, d)
    | none => (.ok released, d)
  | file :: files =>
    match d.release (call.after looks) file .all with
    | (.ok (), d) => releaseEach call d (looks + 2) (released + 1) trouble files
    | (.error f, d) =>
      match f.kind with
      | .aborted => (.error f, d)
      | .notFound | .notAssigned => releaseEach call d (looks + 2) released trouble files
      | _ => releaseEach call d (looks + 2) released (trouble <|> some f) files

/-- The cycles that the roster lists for a client, in the order of their names; one that the index
does not have is passed over. -/
def heldBy (d : Directory) (client : Client) : List FileId :=
  let listed := (d.roster.filesOf client).filterMap d.locate?
  (listed.mergeSort fun a b =>
    (compareLex (compareOn fun found : FileSet × FileCycle => found.2.item.key)
      (compareOn fun found : FileSet × FileCycle => found.2.file.number) a b).isLE).map
    fun found => found.2.file

/-- Releases every cycle that the caller has assigned, in the order of their names; tells how many
there were. -/
def releaseAll (d : Directory) (call : Call) : Except Failure Nat × Directory :=
  match call.check .releaseAll 0 with
  | .error f => (.error f, d)
  | .ok () =>
    releaseEach call d 1 0 none (d.heldBy call.client)

/-! ### Queries -/

/-- The item of a cycle as callers see it. -/
def shown (d : Directory) (c : FileCycle) : MainItem :=
  match d.store with
  | none => c.item
  | some store => store.shown c

/-- Describes a file set. -/
def setInfo (d : Directory) (call : Call) (qualifier filename : String) :
    Except Failure SetInfo := do
  call.check .setInfo 0
  let name ← SetName.ofTexts qualifier filename
  let some set := d.find? name | throw (.noSuchSet name)
  return set.info

/-- Describes a cycle. -/
def cycleInfo (d : Directory) (call : Call) (file : FileId) : Except Failure CycleInfo := do
  call.check .cycleInfo 0
  let some (_, cycle) := d.locate? file | throw (.noSuchFile file)
  return { file := file, item := d.shown cycle }

/-- Describes every file set, in the order of their names. -/
def listSets (d : Directory) (call : Call) : Except Failure (List SetInfo) := do
  call.check .listSets 0
  return d.listed.map FileSet.info

/-- The number of free tracks of the pack. -/
def freeTracks (d : Directory) : Nat := d.catalog.space.free

end Directory

end FileDirectory
