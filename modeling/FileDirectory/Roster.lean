/-
**The roster of clients.**

Beside the catalog a directory keeps a roster that lists, for each client, the cycles that the client
has assigned, so that they can all be released without a search through the catalog.  Whatever
operation gives a client its first assignment of a cycle, or takes its last one away, notes that on
the roster.  A client without a cycle is not listed.

Main definitions:

* `FileDirectory.Roster`, `FileDirectory.Roster.filesOf` — the cycles of each client;
* `FileDirectory.Roster.Note` — what an operation notes;
* `FileDirectory.Roster.note`, `FileDirectory.Roster.noteAll` — the roster with that noted.

Main results:

* `FileDirectory.Roster.noteAll_nil` — without notes the roster stays as it is.
-/

import FileDirectory.Item

set_option autoImplicit false

namespace FileDirectory

/-- The cycles that each client has assigned. -/
structure Roster where
  entries : List (Client × List FileId) := []
  deriving DecidableEq, Repr

namespace Roster

/-- The cycles of a client, the lowest identifier first. -/
def filesOf (r : Roster) (client : Client) : List FileId := (r.entries.lookup client).getD []

/-- Identifiers in ascending order with one more in its place. -/
def insertFile (file : FileId) : List FileId → List FileId
  | [] => [file]
  | other :: rest =>
    if file.number < other.number then file :: other :: rest
    else if file = other then other :: rest
    else other :: insertFile file rest

/-- The entries with a cycle listed for a client. -/
def enter (client : Client) (file : FileId) :
    List (Client × List FileId) → List (Client × List FileId)
  | [] => [(client, [file])]
  | (other, files) :: rest =>
    if client = other then (other, insertFile file files) :: rest
    else (other, files) :: enter client file rest

/-- The entries with a cycle no longer listed for a client, who goes with its last cycle. -/
def strike (client : Client) (file : FileId) :
    List (Client × List FileId) → List (Client × List FileId)
  | [] => []
  | (other, files) :: rest =>
    if client = other then
      match files.filter fun listed => listed ≠ file with
      | [] => rest
      | left => (other, left) :: rest
    else (other, files) :: strike client file rest

/-- What an operation notes on the roster. -/
inductive Note where
  /-- The client has the cycle assigned. -/
  | assigned (client : Client) (file : FileId)
  /-- The client no longer has the cycle assigned. -/
  | released (client : Client) (file : FileId)
  deriving DecidableEq, Repr

/-- The roster with something noted. -/
def note (r : Roster) : Note → Roster
  | .assigned client file => ⟨enter client file r.entries⟩
  | .released client file => ⟨strike client file r.entries⟩

/-- The roster with several things noted in turn. -/
def noteAll (r : Roster) (notes : List Note) : Roster := notes.foldl note r

@[simp] theorem noteAll_nil (r : Roster) : r.noteAll [] = r := rfl

@[simp] theorem noteAll_cons (r : Roster) (n : Note) (notes : List Note) :
    r.noteAll (n :: notes) = (r.note n).noteAll notes := rfl

end Roster

/-- What is noted of a cycle that is dropped: none of its holders has it any more. -/
def FileCycle.departure (c : FileCycle) : List Roster.Note :=
  c.holders.map fun holder => .released holder.1 c.file

end FileDirectory
