/-
**Requests.**

Everything that a caller may ask of a directory, as data, so that a whole history of requests can be
carried out and spoken about.

Main definitions:

* `FileDirectory.Request` — an operation or a query with what the caller says;
* `FileDirectory.Reply` — what the directory answers when it complies;
* `FileDirectory.Directory.handle` — the answer to a request and the directory after it;
* `FileDirectory.Directory.after` — the directory after a history of requests.

Main results:

* `FileDirectory.Directory.handle_of_isQuery` — a query changes nothing;
* `FileDirectory.Directory.after_append` — a history may be cut anywhere.
-/

import FileDirectory.Directory

set_option autoImplicit false

namespace FileDirectory

/-- What a caller asks of a directory. -/
inductive Request where
  /-- Creates a cycle of a tape file. -/
  | createTape (r : TapeRequest)
  /-- Creates a temporary disk file. -/
  | createDisk (r : DiskRequest)
  /-- Assigns a cycle to the caller. -/
  | assign (qualifier filename : String) (cycle : CycleSpec) (readKey : String)
  /-- Makes a cycle live that the caller is cataloging. -/
  | catalog (file : FileId)
  /-- Drops a cycle that the caller is cataloging. -/
  | abort (file : FileId)
  /-- Deletes a live cycle. -/
  | delete (qualifier filename : String) (cycle : CycleSpec) (writeKey : String)
  /-- Gives up one assignment of a cycle. -/
  | release (file : FileId)
  /-- Gives up every assignment that the caller has. -/
  | releaseAll
  /-- Backs file tracks by pack tracks. -/
  | allocateTracks (file : FileId) (first count : Nat)
  /-- Records that the caller wrote file tracks. -/
  | markWritten (file : FileId) (first count : Nat)
  /-- Guards a file set, or takes the guard off. -/
  | setGuard (qualifier filename : String) (guarded : Bool) (writeKey : String)
  /-- Asks for a file set. -/
  | setInfo (qualifier filename : String)
  /-- Asks for a cycle. -/
  | cycleInfo (file : FileId)
  /-- Asks for every file set. -/
  | listSets

/-- Whether a request only asks. -/
def Request.isQuery : Request → Bool
  | .setInfo .. | .cycleInfo _ | .listSets => true
  | _ => false

/-- What a directory answers to a request that it complies with. -/
inductive Reply where
  | done
  /-- The cycle that was created or assigned. -/
  | file (file : FileId)
  /-- How many cycles were released. -/
  | released (count : Nat)
  | set (info : SetInfo)
  | cycle (info : CycleInfo)
  | sets (infos : List SetInfo)
  deriving DecidableEq, Repr

namespace Directory

/-! ### One request -/

/-- The outcome of an operation, its answer made a reply. -/
def replied {α : Type} (reply : α → Reply) (outcome : Except Failure α × Directory) :
    Except Failure Reply × Directory :=
  (outcome.1.map reply, outcome.2)

@[simp] theorem replied_snd {α : Type} (reply : α → Reply)
    (outcome : Except Failure α × Directory) : (replied reply outcome).2 = outcome.2 := rfl

/-- Carries out a request of a caller. -/
def handle (d : Directory) (call : Call) : Request → Except Failure Reply × Directory
  | .createTape r => replied .file (d.createTape call r)
  | .createDisk r => replied .file (d.createDisk call r)
  | .assign qualifier filename cycle readKey =>
    replied .file (d.assign call qualifier filename cycle readKey)
  | .catalog file => replied (fun _ => .done) (d.catalogCycle call file)
  | .abort file => replied (fun _ => .done) (d.abort call file)
  | .delete qualifier filename cycle writeKey =>
    replied (fun _ => .done) (d.delete call qualifier filename cycle writeKey)
  | .release file => replied (fun _ => .done) (d.release call file .one)
  | .releaseAll => replied .released (d.releaseAll call)
  | .allocateTracks file first count =>
    replied (fun _ => .done) (d.allocateTracks call file first count)
  | .markWritten file first count =>
    replied (fun _ => .done) (d.markWritten call file first count)
  | .setGuard qualifier filename guarded writeKey =>
    replied (fun _ => .done) (d.setGuard call qualifier filename guarded writeKey)
  | .setInfo qualifier filename => replied .set (d.setInfo call qualifier filename, d)
  | .cycleInfo file => replied .cycle (d.cycleInfo call file, d)
  | .listSets => replied .sets (d.listSets call, d)

/-- A query changes nothing. -/
theorem handle_of_isQuery (d : Directory) (call : Call) {r : Request} (h : r.isQuery = true) :
    (d.handle call r).2 = d := by
  cases r <;> first | exact absurd h Bool.false_ne_true | rfl

/-! ### Histories -/

/-- The directory after a history of requests, each made in a call of its own. -/
def after (d : Directory) : List (Call × Request) → Directory
  | [] => d
  | (call, r) :: history => (d.handle call r).2.after history

@[simp] theorem after_nil (d : Directory) : d.after [] = d := rfl

@[simp] theorem after_cons (d : Directory) (call : Call) (r : Request)
    (history : List (Call × Request)) :
    d.after ((call, r) :: history) = (d.handle call r).2.after history := rfl

/-- A history may be cut anywhere. -/
theorem after_append (d : Directory) (earlier later : List (Call × Request)) :
    d.after (earlier ++ later) = (d.after earlier).after later := by
  induction earlier generalizing d with
  | nil => rfl
  | cons step earlier ih => exact ih _

end Directory

end FileDirectory
