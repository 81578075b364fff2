/-
**Assigning and releasing cycles.**

A run uses a cycle by assigning it, as often as it likes, and gives its assignments up by releasing
them.  Releasing the last assignment of a cycle that is being dropped drops it; when the creator of
a cycle that is being cataloged gives up its last assignment, the cycle is cataloged.

Main definitions:

* `FileDirectory.Catalog.assign` — assigns a cycle that the caller names;
* `FileDirectory.Catalog.release` — gives up one or all of the caller's assignments of a cycle.

Main results:

* `FileDirectory.Catalog.release_of_not_held` — nothing is released that is not assigned.
-/

import FileDirectory.Catalog
import FileDirectory.Catalog.Argument

set_option autoImplicit false

namespace FileDirectory.Catalog

/-- Assigns to the caller a cycle that it names, under the read key of the file set. -/
def assign (c : Catalog) (call : Call) (qualifier filename : String) (spec : CycleSpec)
    (readKey : String) : Except Failure (Change FileId) := do
  call.check .assign 0
  let name ← SetName.ofTexts qualifier filename
  let spec ← spec.check
  let readKey ← NameRole.key.normalize readKey
  let set ← c.find name
  set.lead.checkKey .read readKey
  let cycle ← set.resolve spec call.client
  call.check .assign 1
  return {
    catalog := c.put (set.modify cycle.file fun d => d.assign call.client call.now)
    touched := name
    answer := cycle.file
    notes := [.assigned call.client cycle.file] }

/-- How many of its assignments a client gives up. -/
inductive Share where
  | one
  | all
  deriving DecidableEq, Repr

/-- The number of assignments in a share of those held. -/
def Share.of (share : Share) (held : Nat) : Nat :=
  match share with
  | .one => 1
  | .all => held

/-- A cycle some of whose assignments a client has given up. -/
def released (cycle : FileCycle) (call : Call) (share : Share) : FileCycle :=
  let cycle := cycle.unassign call.client (share.of (cycle.held call.client))
  { cycle with item := { cycle.item with lastReference := call.now } }

/-- A cycle that has been cataloged. -/
def cataloged (cycle : FileCycle) (now : Nat) : FileCycle :=
  { cycle with
    creator := none
    item := { cycle.item.withState .live with catalogTime := now } }

/-- The catalog once a cycle has been released: it may now be cataloged, or be dropped for good. -/
def settle (c : Catalog) (call : Call) (set : FileSet) (cycle : FileCycle) : Catalog :=
  match cycle.item.state with
  | .cataloging =>
    if cycle.held call.client = 0 then
      c.put (set.modify cycle.file fun _ => cataloged cycle call.now).refresh
    else c.put (set.modify cycle.file fun _ => cycle)
  | .dropping =>
    if cycle.item.assigned = 0 then c.drop set cycle
    else c.put (set.modify cycle.file fun _ => cycle)
  | .live | .dropped => c.put (set.modify cycle.file fun _ => cycle)

/-- What is noted of a cycle that the caller has released: that it has none of it left, and that
nobody has if the cycle is dropped. -/
def releaseNotes (call : Call) (cycle : FileCycle) : List Roster.Note :=
  (if cycle.held call.client = 0 then [.released call.client cycle.file] else []) ++
    if cycle.item.state = .dropping ∧ cycle.item.assigned = 0 then cycle.departure else []

/-- What becomes of the index when a cycle has been released: it may now be dropped for good. -/
def releaseMove (cycle : FileCycle) : Option Index.Move :=
  if cycle.item.state = .dropping ∧ cycle.item.assigned = 0 then some (.dropped cycle.file) else none

/-- Gives up one or all of the caller's assignments of a cycle. -/
def release (c : Catalog) (call : Call) (file : FileId) (share : Share) :
    Except Failure (Change Unit) := do
  call.check .release 0
  let (set, cycle) ← c.locate file
  if cycle.held call.client = 0 then throw (.notAssigned file call.client)
  call.check .release 1
  return {
    catalog := c.settle call set (released cycle call share)
    touched := set.name
    answer := ()
    notes := releaseNotes call (released cycle call share)
    moved := releaseMove (released cycle call share) }

/-- Nothing is released that is not assigned. -/
theorem release_of_not_held {c : Catalog} {call : Call} {file : FileId} {set : FileSet}
    {cycle : FileCycle} (hfound : c.locate? file = some (set, cycle))
    (hheld : cycle.held call.client = 0) (htime : call.expired 0 = false) (share : Share) :
    c.release call file share = .error (.notAssigned file call.client) := by
  have hcheck : call.check .release 0 = .ok () := by simp [Call.check, htime]
  have hlocate : c.locate file = .ok (set, cycle) := by simp [locate, hfound]
  simp [release, hcheck, hlocate, hheld, bind, Except.bind, throw, throwThe, MonadExceptOf.throw]

end FileDirectory.Catalog
