/-
**Snapshots of the catalog.**

What callers are told about a file set or a cycle.  The keys of a file set are not told, only whether
there are any.

Main definitions:

* `FileDirectory.SetInfo`, `FileDirectory.FileSet.info` — a file set with a summary of its cycles,
  newest first;
* `FileDirectory.CycleInfo` — a cycle.

Main results:

* `FileDirectory.FileSet.length_cycles_info` — every cycle of a set is summarized.
-/

import FileDirectory.FileSet

set_option autoImplicit false

namespace FileDirectory

/-- A cycle in the description of its file set. -/
structure CycleSummary where
  file : FileId
  cycle : Nat
  state : CycleState
  assigned : Nat
  deriving DecidableEq, Repr

/-- The description of a file set. -/
structure SetInfo where
  name : SetName
  projectId : String
  fileType : FileType
  hasReadKey : Bool
  hasWriteKey : Bool
  guarded : Bool
  plusOneExists : Bool
  renameInProgress : Bool
  directory : DirectoryIndex
  access : Access
  maxRange : Nat
  currentRange : Nat
  cycleCount : Nat
  highest : Nat
  /-- The cycles, newest first. -/
  cycles : List CycleSummary
  deriving DecidableEq, Repr

/-- The description of a cycle. -/
structure CycleInfo where
  file : FileId
  item : MainItem
  deriving DecidableEq, Repr

/-- The summary of a cycle. -/
def FileCycle.summary (c : FileCycle) : CycleSummary where
  file := c.file
  cycle := c.item.key.cycle
  state := c.item.state
  assigned := c.item.assigned

/-- The description of a file set. -/
def FileSet.info (set : FileSet) : SetInfo where
  name := set.name
  projectId := set.lead.projectId
  fileType := set.lead.fileType
  hasReadKey := set.lead.readKey ≠ ""
  hasWriteKey := set.lead.writeKey ≠ ""
  guarded := set.lead.guarded
  plusOneExists := set.lead.plusOneExists
  renameInProgress := set.lead.renameInProgress
  directory := set.lead.directory
  access := set.lead.access
  maxRange := set.lead.maxRange
  currentRange := set.currentRange
  cycleCount := set.cycleCount
  highest := set.lead.highest
  cycles := set.byAge.map FileCycle.summary

/-- Every cycle of a set is summarized. -/
@[simp] theorem FileSet.length_cycles_info (set : FileSet) :
    set.info.cycles.length = set.cycles.length := by
  simp [FileSet.info, FileSet.byAge]

end FileDirectory
