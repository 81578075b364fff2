/-
**The catalog.**

The catalog holds every file set, in the order of their names, and the free space of the pack.  An
operation on the catalog either fails or yields the changed catalog together with the name of the
file set that it touched, with what is to be noted on the roster of clients and with what becomes of
the index.

Identifiers, tracks and counts are natural numbers.  Requests are checked against the bounds that the
directory sets them; identifiers and counts of assignments have none here, where a machine would run
out of them at 2⁶⁴ and 2³².

Main definitions:

* `FileDirectory.Configuration` — the sizes that a directory is set up with;
* `FileDirectory.Catalog` — the file sets, the free space and the last identifier given out;
* `FileDirectory.Catalog.find?`, `FileDirectory.Catalog.locate?` — looking up a file set by name and
  a cycle by its identifier;
* `FileDirectory.Catalog.put` — replacing a file set, which goes when it has no cycle left;
* `FileDirectory.Change` — what an operation yields.

Main results:

* `FileDirectory.Catalog.locate?_eq_some` — a cycle that is located is one of the set it is located
  in.
-/

import FileDirectory.FileSet
import FileDirectory.Index
import FileDirectory.Pack.FreeSpace
import FileDirectory.Roster

set_option autoImplicit false

namespace FileDirectory

/-! ### Configurations -/

/-- The sizes that a directory is set up with. -/
structure Configuration where
  /-- The number of tracks of the pack. -/
  packTracks : Nat := 10000
  wordsPerTrack : Nat := 1792
  /-- The number of tracks in a position. -/
  tracksPerPosition : Nat := 64
  /-- The range of a new file set for which none is asked. -/
  defaultMaxRange : Nat := 32
  deriving DecidableEq, Repr

namespace Configuration

/-- The number of tracks in a granule. -/
def tracksPerGranule (config : Configuration) : Granularity → Nat
  | .track => 1
  | .position => config.tracksPerPosition

end Configuration

/-! ### Catalogs -/

/-- All file sets in the order of their names, and the free space of the pack. -/
structure Catalog where
  config : Configuration
  sets : List FileSet := []
  space : FreeSpace
  /-- The last identifier that was given to a cycle. -/
  lastFile : Nat := 0
  deriving DecidableEq, Repr

/-- What a successful operation yields: the new catalog, the file set it touched, an answer, what is
noted on the roster of clients, and what becomes of the index. -/
structure Change (α : Type) where
  catalog : Catalog
  touched : SetName
  answer : α
  notes : List Roster.Note := []
  moved : Option Index.Move := none

namespace Catalog

/-- A catalog without file sets.  Track numbers are recorded in words, which limits the pack. -/
def empty (config : Configuration) : Catalog where
  config := config
  space := FreeSpace.ofCapacity (min config.packTracks Word.maxValue)

/-! ### Looking up -/

/-- The file set of a name. -/
def find? (c : Catalog) (name : SetName) : Option FileSet :=
  c.sets.find? fun set => set.name = name

/-- The cycle of an identifier, with its file set. -/
def locate? (c : Catalog) (file : FileId) : Option (FileSet × FileCycle) :=
  c.sets.findSome? fun set => (set.find? file).map fun cycle => (set, cycle)

/-- A cycle that is located is one of the set it is located in. -/
theorem locate?_eq_some {c : Catalog} {file : FileId} {set : FileSet} {cycle : FileCycle}
    (h : c.locate? file = some (set, cycle)) :
    set ∈ c.sets ∧ cycle ∈ set.cycles ∧ cycle.file = file := by
  obtain ⟨s, hs, hmap⟩ := List.exists_of_findSome?_eq_some h
  obtain ⟨d, hd, heq⟩ := Option.map_eq_some_iff.1 hmap
  obtain ⟨rfl, rfl⟩ := Prod.mk.inj heq
  exact ⟨hs, FileSet.find?_eq_some hd⟩

/-- The file set of a name, or a complaint. -/
def find (c : Catalog) (name : SetName) : Except Failure FileSet :=
  match c.find? name with
  | some set => .ok set
  | none => .error (.noSuchSet name)

/-- The cycle of an identifier, or a complaint. -/
def locate (c : Catalog) (file : FileId) : Except Failure (FileSet × FileCycle) :=
  match c.locate? file with
  | some found => .ok found
  | none => .error (.noSuchFile file)

/-- All cycles, by file set. -/
def cycles (c : Catalog) : List FileCycle := c.sets.flatMap FileSet.cycles

/-- The identifiers of all cycles, lowest first. -/
def files (c : Catalog) : List FileId :=
  (c.cycles.map FileCycle.file).mergeSort fun a b => a.number ≤ b.number

/-! ### Changing the catalog -/

/-- File sets in the order of their names with one put in its place, instead of any of its name. -/
def insertSet (set : FileSet) : List FileSet → List FileSet
  | [] => [set]
  | other :: rest =>
    match compare set.name other.name with
    | .lt => set :: other :: rest
    | .eq => set :: rest
    | .gt => other :: insertSet set rest

/-- The catalog with a file set changed or added; a set without cycles goes. -/
def put (c : Catalog) (set : FileSet) : Catalog :=
  if set.cycles.isEmpty then { c with sets := c.sets.filter fun other => other.name ≠ set.name }
  else { c with sets := insertSet set c.sets }

/-- Free space with given regions released in turn. -/
def releaseAll (space : FreeSpace) (regions : List Region) : FreeSpace :=
  regions.foldl (fun space r => (space.release r).2) space

/-- The catalog with a cycle of a file set dropped and its tracks released. -/
def drop (c : Catalog) (set : FileSet) (cycle : FileCycle) : Catalog :=
  { c with space := releaseAll c.space cycle.item.table.takeAll.1 }.put
    (set.erase cycle.file).refresh

end Catalog

/-! ### Deadlines -/

/-- Gives up when the deadline has passed; the deadline has been looked at `earlier` times. -/
def Call.check (call : Call) (operation : Operation) (earlier : Nat) : Except Failure Unit :=
  if call.expired earlier then .error (.deadlinePassed operation call.client) else .ok ()

end FileDirectory
