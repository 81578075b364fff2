/-
**Tracks of a file.**

A run that has a mass-storage cycle assigned may have tracks of it allocated on the pack, as far as
the maximum of the cycle allows, and records which tracks it has written.

Main definitions:

* `FileDirectory.Catalog.allocateTracks` — backs a region of file tracks by pack tracks;
* `FileDirectory.Catalog.Halted` — an allocation that was given up, and the catalog that it left;
* `FileDirectory.Catalog.markWritten` — records that a region has been written;
* `FileDirectory.Catalog.fill` — allocates the gaps of a region in turn.

Main results:

* `FileDirectory.Catalog.fill_nil` — without gaps nothing is allocated.
-/

import FileDirectory.Catalog

set_option autoImplicit false

namespace FileDirectory.Catalog

/-- The region that a caller asks for, if the cycle is on mass storage and assigned to the caller
and the region is not empty and ends where track numbers do. -/
def checkTracks (call : Call) (cycle : FileCycle) (first count : Nat) : Except Failure Region :=
  if cycle.item.fileType ≠ .massStorage then .error (.fileHasType cycle.file cycle.item.fileType)
  else if cycle.held call.client = 0 then .error (.notAssigned cycle.file call.client)
  else if count = 0 ∨ Word.maxValue < first + count then .error (.badRegion first count)
  else .ok ⟨first, count⟩

/-- Allocates the given gaps of a file in turn, up to the first that the pack has no room for; also
says which gap that is. -/
def fill (space : FreeSpace) (table : ExtentTable) :
    List Region → Option Region × FreeSpace × ExtentTable
  | [] => (none, space, table)
  | gap :: gaps =>
    match space.allocate gap.count with
    | none => (some gap, space, table)
    | some (regions, space) => fill space (table.insertRegions gap.first regions) gaps

@[simp] theorem fill_nil (space : FreeSpace) (table : ExtentTable) :
    fill space table [] = (none, space, table) := rfl

/-- The number of granules that reach up to a track. -/
def granulesUpTo (limit perGranule : Nat) : Nat := (limit + (perGranule - 1)) / perGranule

/-- An allocation that a caller may have: its cycle in its file set, the granules that reach up to
its last track, and the parts of its region that have no pack tracks yet. -/
structure Allocation where
  set : FileSet
  cycle : FileCycle
  granules : Nat
  gaps : List Region

/-- The allocation that a caller asks for, unless the maximum of the cycle or the free tracks of the
pack forbid it. -/
def checkAllocation (c : Catalog) (call : Call) (file : FileId) (first count : Nat) :
    Except Failure Allocation := do
  call.check .allocateTracks 0
  let (set, cycle) ← c.locate file
  let region ← checkTracks call cycle first count
  let perGranule := c.config.tracksPerGranule cycle.item.characteristics.granularity
  let granules := granulesUpTo region.limit perGranule
  if cycle.item.maxGranules < granules then
    throw (.granulesOverMaximum file granules cycle.item.maxGranules)
  call.check .allocateTracks 1
  let gaps := cycle.item.table.gaps region
  let needed := (gaps.map Region.count).foldr (· + ·) 0
  if c.space.free < needed then throw (.packFull needed c.space.free)
  return { set, cycle, granules, gaps }

/-- An allocation that was given up: why, and the catalog as it was left. -/
structure Halted where
  failure : Failure
  catalog : Catalog

/-- Backs file tracks by pack tracks.  Tracks that are allocated already stay where they are.  The
gaps are allocated one after another; should the pack have no room for one of them, those before it
keep their tracks. -/
def allocateTracks (c : Catalog) (call : Call) (file : FileId) (first count : Nat) :
    Except Halted (Change Unit) :=
  match c.checkAllocation call file first count with
  | .error f => .error ⟨f, c⟩
  | .ok { set, cycle, granules, gaps } =>
    match fill c.space cycle.item.table gaps with
    | (some gap, space, table) =>
      let partly := { cycle with item := { cycle.item with table := table } }
      .error {
        failure := .noRoomForGap file gap
        catalog := { c with space := space }.put (set.modify file fun _ => partly) }
    | (none, space, table) =>
      let grown := { cycle with item := { cycle.item with
          table := table
          highestGranule := max cycle.item.highestGranule granules
          lastReference := call.now } }
      .ok {
        catalog := { c with space := space }.put (set.modify file fun _ => grown)
        touched := set.name
        answer := () }

/-- The item of a cycle of which tracks up to a limit have been written. -/
def writtenItem (m : MainItem) (limit now : Nat) : MainItem :=
  { m with
    fileFlags := { m.fileFlags with written := true }
    timeOfFirstWrite := if m.fileFlags.written then m.timeOfFirstWrite else now
    highestTrackWritten := max m.highestTrackWritten limit
    lastReference := now }

/-- Records that the caller wrote file tracks, which must all be allocated. -/
def markWritten (c : Catalog) (call : Call) (file : FileId) (first count : Nat) :
    Except Failure (Change Unit) := do
  call.check .markWritten 0
  let (set, cycle) ← c.locate file
  let region ← checkTracks call cycle first count
  unless cycle.item.table.covers region do throw (.notAllAllocated file region)
  call.check .markWritten 1
  let written := { cycle with item := writtenItem cycle.item region.limit call.now }
  return {
    catalog := c.put (set.modify file fun _ => written)
    touched := set.name
    answer := () }

end FileDirectory.Catalog
