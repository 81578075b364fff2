/-
**The life of a cycle.**

The creator of a cycle that is being cataloged either catalogs it, which makes it live, or aborts
it.  A live cycle is deleted under the write key of its file set, unless the set is guarded: at once
if nobody has it assigned, and otherwise when the last assignment is released.

Main definitions:

* `FileDirectory.Catalog.catalog`, `FileDirectory.Catalog.abort` — what a creator does;
* `FileDirectory.Catalog.delete` — deletes a live cycle;
* `FileDirectory.Catalog.setGuard` — guards a file set or takes the guard off.
-/

import FileDirectory.Catalog.Assignment

set_option autoImplicit false

namespace FileDirectory.Catalog

/-- Only the creator of a cycle that is being cataloged may go on. -/
def checkCreator (call : Call) (cycle : FileCycle) : Except Failure Unit :=
  if cycle.item.state ≠ .cataloging then .error (.notCataloging cycle.file cycle.item.state)
  else if cycle.creator ≠ some call.client then .error (.notCreator cycle.file)
  else .ok ()

/-- Makes a cycle live that the caller is cataloging. -/
def catalog (c : Catalog) (call : Call) (file : FileId) : Except Failure (Change Unit) := do
  call.check .catalog 0
  let (set, cycle) ← c.locate file
  checkCreator call cycle
  call.check .catalog 1
  return {
    catalog := c.put (set.modify file fun _ => cataloged cycle call.now).refresh
    touched := set.name
    answer := () }

/-- Drops a cycle that the caller is cataloging. -/
def abort (c : Catalog) (call : Call) (file : FileId) : Except Failure (Change Unit) := do
  call.check .abort 0
  let (set, cycle) ← c.locate file
  checkCreator call cycle
  call.check .abort 1
  return {
    catalog := c.drop set cycle
    touched := set.name
    answer := ()
    notes := cycle.departure
    moved := some (.dropped file) }

/-- Deletes a live cycle that the caller names. -/
def delete (c : Catalog) (call : Call) (qualifier filename : String) (spec : CycleSpec)
    (writeKey : String) : Except Failure (Change Unit) := do
  call.check .delete 0
  let name ← SetName.ofTexts qualifier filename
  let spec ← spec.check
  let writeKey ← NameRole.key.normalize writeKey
  let set ← c.find name
  set.lead.checkKey .write writeKey
  if set.lead.guarded then throw (.guarded set.name)
  let cycle ← set.resolve spec call.client
  if cycle.item.state ≠ .live then throw (.notLive ⟨set.name, cycle.item.key.cycle⟩)
  call.check .delete 1
  let dropping := { cycle with item := cycle.item.withState .dropping }
  return {
    catalog :=
      if cycle.item.assigned = 0 then c.drop set cycle
      else c.put (set.modify cycle.file fun _ => dropping)
    touched := name
    answer := ()
    notes := if cycle.item.assigned = 0 then cycle.departure else []
    moved := if cycle.item.assigned = 0 then some (.dropped cycle.file) else none }

/-- A file set with its guard set or taken off. -/
def guardedSet (set : FileSet) (guarded : Bool) : FileSet where
  lead := { set.lead with guarded := guarded }
  cycles := set.cycles.map fun cycle =>
    { cycle with item := { cycle.item with
        inhibit := { cycle.item.inhibit with guarded := guarded } } }

/-- Guards a file set, or takes the guard off under the write key. -/
def setGuard (c : Catalog) (call : Call) (qualifier filename : String) (guarded : Bool)
    (writeKey : String) : Except Failure (Change Unit) := do
  call.check .setGuard 0
  let name ← SetName.ofTexts qualifier filename
  let writeKey ← NameRole.key.normalize writeKey
  let set ← c.find name
  unless guarded do set.lead.checkKey .write writeKey
  call.check .setGuard 1
  return {
    catalog := c.put (guardedSet set guarded)
    touched := name
    answer := () }

end FileDirectory.Catalog
