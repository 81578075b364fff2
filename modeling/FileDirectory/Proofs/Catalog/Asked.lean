/-
**The change that a request asks for.**

Every operation of the catalog is one that some request asks for, and what it yields when it succeeds
is a change.  What is to be shown of all changes is shown of one operation after another, once, by
cases on the operation that yields the change.

Main definitions:

* `FileDirectory.Catalog.Asked` — the operations that yield a change, each for its request.

Main results:

* `FileDirectory.Catalog.Asked.steps` — the change is a step of the catalog;
* `FileDirectory.Catalog.Asked.turns` — it is a turn for every cycle.
-/

import FileDirectory.Proofs.Catalog.Turn

set_option autoImplicit false

namespace FileDirectory

/-- A call with no look at its deadline behind it is the whole call. -/
@[simp] theorem Call.after_zero (call : Call) : call.after 0 = call := by
  obtain ⟨client, now, patience⟩ := call
  cases patience <;> rfl

namespace Catalog

/-- A change that an operation of the catalog yields for a request.  A cycle that is released with all
others is released later in the call. -/
inductive Asked (call : Call) (c : Catalog) : Request → {α : Type} → Change α → Prop
  | createTape {request : TapeRequest} {change : Change FileId}
      (h : c.createTape call request = .ok change) : Asked call c (.createTape request) change
  | createDisk {request : DiskRequest} {change : Change FileId}
      (h : c.createDisk call request = .ok change) : Asked call c (.createDisk request) change
  | assign {qualifier filename : String} {spec : CycleSpec} {readKey : String}
      {change : Change FileId} (h : c.assign call qualifier filename spec readKey = .ok change) :
      Asked call c (.assign qualifier filename spec readKey) change
  | catalog {file : FileId} {change : Change Unit} (h : c.catalog call file = .ok change) :
      Asked call c (.catalog file) change
  | abort {file : FileId} {change : Change Unit} (h : c.abort call file = .ok change) :
      Asked call c (.abort file) change
  | delete {qualifier filename : String} {spec : CycleSpec} {writeKey : String}
      {change : Change Unit} (h : c.delete call qualifier filename spec writeKey = .ok change) :
      Asked call c (.delete qualifier filename spec writeKey) change
  | release {r : Request} {looks : Nat} {file : FileId} {share : Share} {change : Change Unit}
      (hr : r.share file = some share) (h : c.release (call.after looks) file share = .ok change) :
      Asked call c r change
  | allocateTracks {file : FileId} {first count : Nat} {change : Change Unit}
      (h : c.allocateTracks call file first count = .ok change) :
      Asked call c (.allocateTracks file first count) change
  | markWritten {file : FileId} {first count : Nat} {change : Change Unit}
      (h : c.markWritten call file first count = .ok change) :
      Asked call c (.markWritten file first count) change
  | setGuard {qualifier filename : String} {guarded : Bool} {writeKey : String}
      {change : Change Unit} (h : c.setGuard call qualifier filename guarded writeKey = .ok change) :
      Asked call c (.setGuard qualifier filename guarded writeKey) change

variable {call : Call} {c : Catalog} {r : Request} {α : Type} {change : Change α}

/-- A step depends on the client and the clock of a call, not on its deadline. -/
theorem step_of_after {looks : Nat} {set : FileSet} {space : FreeSpace} {last : Nat}
    (h : Step (call.after looks) c set space last) : Step call c set space last := by
  cases h with
  | enter hr hset hnumber htracks hspace => exact .enter hr hset hnumber htracks hspace
  | change hset hcycle hstep =>
      refine .change hset hcycle ?_
      cases hstep with
      | assign hvisible => exact .assign hvisible
      | release share hheld => exact .release share hheld
      | delete hlive => exact .delete hlive
      | write region hregion hcovers => exact .write region hregion hcovers
  | catalog hset hcycle hstate hstep =>
      refine .catalog hset hcycle hstate ?_
      cases hstep with
      | catalog hcreator => exact .catalog hcreator
      | release share hheld => exact .release share hheld
  | drop hset hcycle => exact .drop hset hcycle
  | grow hset hcycle hregion hgranules hfill => exact .grow hset hcycle hregion hgranules hfill
  | guard hset guarded => exact .guard hset guarded

/-- So does a turn. -/
theorem turn_of_after {looks : Nat} {file : FileId} {before after : Option FileCycle}
    {notes : List Roster.Note} (h : Turn (call.after looks) r file before after notes) :
    Turn call r file before after notes := by
  cases h with
  | idle => exact .idle before
  | create hr => exact .create hr
  | assign hr hvisible => exact .assign hr hvisible
  | catalog hr hstate hcreator => exact .catalog hr hstate hcreator
  | abort hr hstate hcreator => exact .abort hr hstate hcreator
  | doom hr hlive hheld => exact .doom hr hlive hheld
  | delete hr hlive hheld => exact .delete hr hlive hheld
  | release hr hheld => exact .release hr hheld
  | grow hr hheld => exact .grow hr hheld
  | write hr hheld => exact .write hr hheld
  | guard hr guarded => exact .guard hr guarded

/-- **Every change that is asked for is a step of the catalog.** -/
theorem Asked.steps (h : Asked call c r change) (hc : c.Indexed) : change.Steps call c := by
  cases h with
  | createTape h => exact steps_createTape h
  | createDisk h => exact steps_createDisk h
  | assign h => exact steps_assign hc.nodup h
  | catalog h => exact steps_catalog h
  | abort h => exact steps_abort h
  | delete h => exact steps_delete h
  | release hr h =>
      obtain ⟨set, space, last, hstep, hrest⟩ := steps_release h
      exact ⟨set, space, last, step_of_after hstep, hrest⟩
  | allocateTracks h => exact steps_allocateTracks h
  | markWritten h => exact steps_markWritten h
  | setGuard h => exact steps_setGuard h

/-- **Every change that is asked for is a turn for every cycle.** -/
theorem Asked.turns (h : Asked call c r change) (hc : c.Indexed) : change.Turns call r c := by
  cases h with
  | createTape h => exact turns_createTape hc h
  | createDisk h => exact turns_createDisk hc h
  | assign h => exact turns_assign hc h
  | catalog h => exact turns_catalog hc h
  | abort h => exact turns_abort hc h
  | delete h => exact turns_delete hc h
  | release hr h => exact fun file => turn_of_after (turns_release hc hr h file)
  | allocateTracks h => exact turns_allocateTracks hc h
  | markWritten h => exact turns_markWritten hc h
  | setGuard h => exact turns_setGuard hc h

end Catalog

end FileDirectory
