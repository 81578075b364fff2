/-
**The index of a directory.**

File sets and cycles are looked up through an index.  A node stands for a file set and has a slot for
each cycle that the set ever had; a table has the place of a node for each name, and another the
place and the slot of a cycle for each identifier.  Neither places nor slots are used again, so an
entry of a table never comes to mean another cycle.

A cycle that is dropped leaves its slot at once, and its node is marked if it was the last one.  The
tables are tidied up only after the medium has been brought up to date, whether or not that went
well.

Main definitions:

* `FileDirectory.Index`, `FileDirectory.Node`, `FileDirectory.Position` — the nodes and the tables;
* `FileDirectory.Index.named?`, `FileDirectory.Index.found?`, `FileDirectory.Index.listed` — looking
  up;
* `FileDirectory.Index.enter` — a cycle that is created is entered;
* `FileDirectory.Index.vacate`, `FileDirectory.Index.tidy` — the two halves of dropping one;
* `FileDirectory.Index.ofSets` — the index of file sets that were recovered.

Main results:

* `FileDirectory.Index.named?_eq_some`, `FileDirectory.Index.found?_eq_some` — what is looked up is
  not a node that has been removed, nor another cycle in the slot.
-/

import FileDirectory.FileSet

set_option autoImplicit false

namespace FileDirectory

/-! ### Tables -/

/-- A table without the entry of a key. -/
def withoutEntry {α β : Type} [DecidableEq α] (key : α) (table : List (α × β)) : List (α × β) :=
  table.filter fun entry => entry.1 ≠ key

/-- A table with an entry for a key, instead of any that it had. -/
def withEntry {α β : Type} [DecidableEq α] (key : α) (value : β) (table : List (α × β)) :
    List (α × β) :=
  (key, value) :: withoutEntry key table

/-! ### Nodes -/

/-- What stands for a file set: the identifiers in the slots of its cycles. -/
structure Node where
  name : SetName
  slots : List (Option FileId) := []
  /-- Whether the last cycle has gone. -/
  removed : Bool := false
  deriving DecidableEq, Repr

namespace Node

/-- The cycles that are in the slots. -/
def files (node : Node) : List FileId := node.slots.filterMap id

/-- The cycle in a slot. -/
def fileAt? (node : Node) (slot : Nat) : Option FileId := node.slots[slot]?.join

/-- The node with one more cycle, in a slot of its own. -/
def push (node : Node) (file : FileId) : Node := { node with slots := node.slots ++ [some file] }

/-- The node with a slot empty; without any cycle left it is removed. -/
def vacate (node : Node) (slot : Nat) : Node :=
  let slots := node.slots.set slot none
  { node with slots := slots, removed := node.removed || slots.all Option.isNone }

end Node

/-- Where a cycle is: the place of its node, and its slot there. -/
structure Position where
  place : Nat
  slot : Nat
  deriving DecidableEq, Repr

/-- The nodes by place, the place of each name, and the position of each identifier. -/
structure Index where
  nodes : List (Option Node) := []
  names : List (SetName × Nat) := []
  files : List (FileId × Position) := []
  deriving DecidableEq, Repr

namespace Index

/-! ### Looking up -/

/-- The node at a place. -/
def node? (x : Index) (place : Nat) : Option Node := x.nodes[place]?.join

/-- The place and the node of a name, unless the node has been removed. -/
def named? (x : Index) (name : SetName) : Option (Nat × Node) := do
  let place ← x.names.lookup name
  let node ← x.node? place
  if node.removed then none else some (place, node)

/-- The position and the node of a cycle, if the slot holds that cycle and the node has not been
removed. -/
def found? (x : Index) (file : FileId) : Option (Position × Node) := do
  let position ← x.files.lookup file
  let node ← x.node? position.place
  if node.fileAt? position.slot = some file ∧ node.removed = false then some (position, node)
  else none

/-- The nodes of all names, in the order of the names. -/
def listed (x : Index) : List Node :=
  let sorted := x.names.mergeSort fun a b => (compare a.1 b.1).isLE
  (sorted.filterMap fun entry => x.node? entry.2).filter fun node => !node.removed

/-- A node that is looked up by its name is at the place of that name, and not removed. -/
theorem named?_eq_some {x : Index} {name : SetName} {place : Nat} {node : Node} :
    x.named? name = some (place, node) ↔
      x.names.lookup name = some place ∧ x.node? place = some node ∧ node.removed = false := by
  unfold named?
  cases hplace : x.names.lookup name with
  | none => simp
  | some other =>
      cases hnode : x.node? other <;> grind

/-- A cycle that is looked up is in the slot that the table has for it. -/
theorem found?_eq_some {x : Index} {file : FileId} {position : Position} {node : Node} :
    x.found? file = some (position, node) ↔
      x.files.lookup file = some position ∧ x.node? position.place = some node ∧
        node.fileAt? position.slot = some file ∧ node.removed = false := by
  unfold found?
  cases hposition : x.files.lookup file with
  | none => simp
  | some other =>
      cases hnode : x.node? other.place <;> grind

/-! ### Changing the index -/

/-- The index with a created cycle entered: in a slot of the node of its file set, or of a new
node. -/
def enter (x : Index) (name : SetName) (file : FileId) : Index :=
  match x.named? name with
  | some (place, node) =>
    { x with
      nodes := x.nodes.set place (some (node.push file))
      files := withEntry file ⟨place, node.slots.length⟩ x.files }
  | none =>
    { nodes := x.nodes ++ [some { name := name, slots := [some file] }]
      names := withEntry name x.nodes.length x.names
      files := withEntry file ⟨x.nodes.length, 0⟩ x.files }

/-- The index with a cycle taken out of its slot.  The tables stay as they are. -/
def vacate (x : Index) (file : FileId) : Index :=
  match x.found? file with
  | some (position, node) =>
    { x with nodes := x.nodes.set position.place (some (node.vacate position.slot)) }
  | none => x

/-- The index once the entry of a dropped cycle is gone, and with it a node that has been removed and
the entry of its name. -/
def tidy (x : Index) (file : FileId) : Index :=
  let files := withoutEntry file x.files
  match x.files.lookup file with
  | none => { x with files := files }
  | some position =>
    match x.node? position.place with
    | none => { x with files := files }
    | some node =>
      if node.removed then
        { nodes := x.nodes.set position.place none
          names :=
            if x.names.lookup node.name = some position.place then withoutEntry node.name x.names
            else x.names
          files := files }
      else { x with files := files }

/-! ### Operations -/

/-- What an operation does to the index. -/
inductive Move where
  /-- A cycle of a file set of that name has been created. -/
  | entered (name : SetName) (file : FileId)
  /-- A cycle has been dropped. -/
  | dropped (file : FileId)
  deriving DecidableEq, Repr

/-- The index before the medium is brought up to date. -/
def follow (x : Index) : Option Move → Index
  | some (.entered name file) => x.enter name file
  | some (.dropped file) => x.vacate file
  | none => x

/-- The index after the medium has been brought up to date. -/
def settle (x : Index) : Option Move → Index
  | some (.dropped file) => x.tidy file
  | some (.entered ..) | none => x

/-! ### Recovered file sets -/

/-- The index with the cycles of a file set entered in turn. -/
def enterAll (x : Index) (set : FileSet) : Index :=
  set.cycles.foldl (fun x c => x.enter set.name c.file) x

/-- The index of file sets that were recovered. -/
def ofSets (sets : List FileSet) : Index := sets.foldl enterAll {}

end Index

end FileDirectory
