/-
**An index that is kept.**

The tables of an index agree with its nodes: every name has the place of the node of that name, and
every identifier the position of the slot that holds it.  Entering a cycle with a new identifier and
dropping one keep them so, and do to the cycles of every name what they do to the file set.

Main definitions:

* `FileDirectory.Index.Sound` — the tables agree with the nodes;
* `FileDirectory.Index.filesOf` — the cycles that the index has under a name;
* `FileDirectory.Index.drop` — both halves of dropping a cycle;
* `FileDirectory.Index.moved` — what becomes of the cycles of every name.

Main results:

* `FileDirectory.Index.Sound.named?_iff`, `FileDirectory.Index.Sound.found?_iff` — what is looked up
  is told by the nodes;
* `FileDirectory.Index.Sound.enter`, `FileDirectory.Index.Sound.drop`,
  `FileDirectory.Index.Sound.move` — the index stays sound, and has under every name what is due;
* `FileDirectory.Index.sound_ofSets` — the index of recovered file sets.
-/

import FileDirectory.Index
import FileDirectory.Proofs.Catalog.Order

set_option autoImplicit false

namespace FileDirectory

/-! ### Tables -/

section Tables

variable {α β : Type} [DecidableEq α] {table : List (α × β)}

@[simp] theorem lookup_withoutEntry (key other : α) :
    (withoutEntry key table).lookup other = if other = key then none else table.lookup other := by
  by_cases h : other = key
  · subst h
    rw [if_pos rfl, List.lookup_eq_none_iff]
    intro entry hentry
    have hne : entry.1 ≠ other := by simpa using (List.mem_filter.1 hentry).2
    simpa using hne.symm
  · rw [if_neg h]
    exact lookup_filter table (p := fun a => decide (a ≠ key)) (by simpa using h)

@[simp] theorem lookup_withEntry (key : α) (value : β) (other : α) :
    (withEntry key value table).lookup other =
      if other = key then some value else table.lookup other := by
  unfold withEntry
  by_cases h : other = key
  · subst h
    simp
  · have hne : (other == key) = false := by simpa using h
    rw [List.lookup_cons, hne, if_neg h]
    simp [h]

theorem nodup_withoutEntry (h : (table.map Prod.fst).Nodup) (key : α) :
    ((withoutEntry key table).map Prod.fst).Nodup :=
  h.sublist (List.filter_sublist.map Prod.fst)

theorem nodup_withEntry (h : (table.map Prod.fst).Nodup) (key : α) (value : β) :
    ((withEntry key value table).map Prod.fst).Nodup := by
  refine List.nodup_cons.2 ⟨?_, nodup_withoutEntry h key⟩
  intro hin
  obtain ⟨entry, hentry, hkey⟩ := List.mem_map.1 hin
  have hne : entry.1 ≠ key := by simpa using (List.mem_filter.1 hentry).2
  exact hne hkey

end Tables

/-- An entry of a list of optional values replaced. -/
theorem join_getElem?_set {α : Type} (l : List (Option α)) (i j : Nat) (value : Option α)
    (hi : i < l.length) : (l.set i value)[j]?.join = if j = i then value else l[j]?.join := by
  by_cases h : j = i
  · subst h
    simp [hi]
  · rw [if_neg h, List.getElem?_set_ne (Ne.symm h)]

/-! ### The slots of a node -/

namespace Node

variable {node : Node} {file : FileId} {slot : Nat}

theorem fileAt?_eq_some : node.fileAt? slot = some file ↔ node.slots[slot]? = some (some file) := by
  unfold fileAt?
  rw [Option.join_eq_some_iff]

theorem slot_lt (h : node.fileAt? slot = some file) : slot < node.slots.length := by
  obtain ⟨hlt, -⟩ := List.getElem?_eq_some_iff.1 (fileAt?_eq_some.1 h)
  exact hlt

theorem mem_files : file ∈ node.files ↔ ∃ slot, node.fileAt? slot = some file := by
  unfold files
  rw [List.mem_filterMap]
  simp only [fileAt?_eq_some, ← List.mem_iff_getElem?, id, exists_eq_right]

@[simp] theorem files_push (node : Node) (file : FileId) :
    (node.push file).files = node.files ++ [file] := by
  simp [files, push, List.filterMap_append]

theorem fileAt?_push (node : Node) (file : FileId) (slot : Nat) :
    (node.push file).fileAt? slot =
      if slot = node.slots.length then some file else node.fileAt? slot := by
  unfold fileAt? push
  dsimp only
  by_cases h : slot = node.slots.length
  · subst h
    simp
  · rw [if_neg h]
    rcases Nat.lt_or_gt_of_ne h with hlt | hlt
    · rw [List.getElem?_append_left hlt]
    · have hout : (node.slots ++ [some file]).length ≤ slot := by
        rw [List.length_append]
        exact hlt
      rw [List.getElem?_eq_none hout, List.getElem?_eq_none (Nat.le_of_lt hlt)]

@[simp] theorem name_vacate (node : Node) (slot : Nat) : (node.vacate slot).name = node.name := rfl

/-- A node without cycles has none in any slot. -/
theorem fileAt?_eq_none (h : node.files = []) (slot : Nat) : node.fileAt? slot = none := by
  refine Option.eq_none_iff_forall_ne_some.2 fun file hfile => ?_
  have hmem := mem_files.2 ⟨slot, hfile⟩
  rw [h] at hmem
  cases hmem

theorem fileAt?_vacate (h : node.fileAt? slot = some file) (other : Nat) :
    (node.vacate slot).fileAt? other = if other = slot then none else node.fileAt? other :=
  join_getElem?_set node.slots slot other none (slot_lt h)

/-- Emptying the one slot that holds an identifier takes it out of the list. -/
theorem filterMap_set_none {slots : List (Option FileId)} {i : Nat}
    (h : slots[i]? = some (some file)) (hone : ∀ j, slots[j]? = some (some file) → j = i) :
    (slots.set i none).filterMap id = (slots.filterMap id).filter fun f => f ≠ file := by
  induction slots generalizing i with
  | nil => cases h
  | cons first slots ih =>
      cases i with
      | zero =>
          obtain rfl : first = some file := by simpa using h
          have hrest : ∀ f ∈ slots.filterMap id, f ≠ file := by
            rintro f hf rfl
            obtain ⟨a, ha, rfl⟩ := List.mem_filterMap.1 hf
            obtain ⟨j, hj⟩ := List.mem_iff_getElem?.1 ha
            exact absurd (hone (j + 1) hj) (Nat.succ_ne_zero j)
          rw [List.set_cons_zero, List.filterMap_cons, List.filterMap_cons]
          dsimp only [id]
          rw [List.filter_cons_of_neg (by simp), List.filter_eq_self.2]
          intro f hf
          simpa using hrest f hf
      | succ i =>
          have hfirst : first ≠ some file := by
            rintro rfl
            exact absurd (hone 0 rfl) (Nat.succ_ne_zero i).symm
          have hrest := ih h fun j hj => Nat.succ.inj (hone (j + 1) hj)
          cases first with
          | none => simpa using hrest
          | some f =>
              have hne : f ≠ file := fun heq => hfirst (congrArg some heq)
              simpa [hne] using hrest

/-- Emptying the one slot that holds a cycle takes the cycle out. -/
theorem files_vacate (h : node.fileAt? slot = some file)
    (hone : ∀ other, node.fileAt? other = some file → other = slot) :
    (node.vacate slot).files = node.files.filter fun f => f ≠ file :=
  filterMap_set_none (fileAt?_eq_some.1 h) fun j hj => hone j (fileAt?_eq_some.2 hj)

/-- A node is removed when its last cycle goes. -/
theorem removed_vacate (node : Node) (slot : Nat) :
    (node.vacate slot).removed = true ↔ node.removed = true ∨ (node.vacate slot).files = [] := by
  unfold vacate files
  dsimp only
  rw [Bool.or_eq_true, List.all_eq_true, List.filterMap_eq_nil_iff]
  refine or_congr_right (forall₂_congr ?_)
  intro f _
  cases f <;> simp

end Node

namespace Index

/-! ### An index that agrees with itself -/

/-- The cycle that a node has at a position. -/
def fileAt? (x : Index) (position : Position) : Option FileId :=
  (x.node? position.place).bind fun node => node.fileAt? position.slot

/-- The tables agree with the nodes: every name has the place of a node of that name, every node is
at the place of its name and has a cycle, and every identifier has the position at which it is. -/
structure Sound (x : Index) : Prop where
  distinct : (x.names.map Prod.fst).Nodup
  named : ∀ name place, x.names.lookup name = some place →
    ∃ node, x.node? place = some node ∧ node.name = name
  node : ∀ place node, x.node? place = some node →
    x.names.lookup node.name = some place ∧ node.removed = false ∧ node.files ≠ []
  nodup : (x.files.map Prod.fst).Nodup
  filed : ∀ file position, x.files.lookup file = some position ↔ x.fileAt? position = some file

theorem sound_empty : Sound {} where
  distinct := List.nodup_nil
  named := by
    intro name place h
    cases h
  node := by
    intro place node h
    cases h
  nodup := List.nodup_nil
  filed := by
    intro file position
    exact ⟨nofun, nofun⟩

/-- The cycles that the index has under a name. -/
def filesOf (x : Index) (name : SetName) : List FileId :=
  match x.named? name with
  | some (_, node) => node.files
  | none => []

section Looking

variable {x : Index} {name : SetName} {place : Nat} {node : Node} {file : FileId}
  {position : Position}

theorem fileAt?_eq_some :
    x.fileAt? position = some file ↔
      ∃ node, x.node? position.place = some node ∧ node.fileAt? position.slot = some file := by
  unfold fileAt?
  rw [Option.bind_eq_some_iff]

/-- A node is looked up by its name. -/
theorem Sound.named?_iff (h : x.Sound) :
    x.named? name = some (place, node) ↔ x.node? place = some node ∧ node.name = name := by
  rw [named?_eq_some]
  constructor
  · rintro ⟨hplace, hnode, -⟩
    obtain ⟨other, hother, hname⟩ := h.named name place hplace
    obtain rfl := Option.some.inj (hnode.symm.trans hother)
    exact ⟨hnode, hname⟩
  · rintro ⟨hnode, rfl⟩
    obtain ⟨hplace, hremoved, -⟩ := h.node place node hnode
    exact ⟨hplace, hnode, hremoved⟩

/-- A cycle is looked up by its identifier. -/
theorem Sound.found?_iff (h : x.Sound) :
    x.found? file = some (position, node) ↔
      x.node? position.place = some node ∧ node.fileAt? position.slot = some file := by
  rw [found?_eq_some]
  constructor
  · rintro ⟨-, hnode, hslot, -⟩
    exact ⟨hnode, hslot⟩
  · rintro ⟨hnode, hslot⟩
    exact ⟨(h.filed file position).2 (fileAt?_eq_some.2 ⟨node, hnode, hslot⟩), hnode, hslot,
      (h.node _ node hnode).2.1⟩

theorem Sound.filesOf_name (h : x.Sound) (hnode : x.node? place = some node) :
    x.filesOf node.name = node.files := by
  unfold filesOf
  rw [h.named?_iff.2 ⟨hnode, rfl⟩]

/-- Nothing is under a name exactly if the name is not looked up. -/
theorem Sound.filesOf_eq_nil (h : x.Sound) : x.filesOf name = [] ↔ x.named? name = none := by
  unfold filesOf
  cases hnamed : x.named? name with
  | none => simp
  | some found =>
      obtain ⟨hnode, -⟩ := h.named?_iff.1 hnamed
      simpa using (h.node _ _ hnode).2.2

theorem Sound.lookup_eq_none (h : x.Sound) (hnone : x.named? name = none) :
    x.names.lookup name = none := by
  refine Option.eq_none_iff_forall_ne_some.2 fun place hplace => ?_
  obtain ⟨node, hnode, hname⟩ := h.named name place hplace
  rw [h.named?_iff.2 ⟨hnode, hname⟩] at hnone
  cases hnone

/-- A cycle that is under a name is at a position in the node of that name. -/
theorem Sound.mem_filesOf (h : x.Sound) :
    file ∈ x.filesOf name ↔
      ∃ position node, x.found? file = some (position, node) ∧ node.name = name := by
  constructor
  · intro hfile
    unfold filesOf at hfile
    cases hnamed : x.named? name with
    | none =>
        rw [hnamed] at hfile
        cases hfile
    | some found =>
        obtain ⟨place, node⟩ := found
        rw [hnamed] at hfile
        obtain ⟨hnode, hname⟩ := h.named?_iff.1 hnamed
        obtain ⟨slot, hslot⟩ := Node.mem_files.1 hfile
        exact ⟨⟨place, slot⟩, node, h.found?_iff.2 ⟨hnode, hslot⟩, hname⟩
  · rintro ⟨position, node, hfound, rfl⟩
    obtain ⟨hnode, hslot⟩ := h.found?_iff.1 hfound
    rw [h.filesOf_name hnode]
    exact Node.mem_files.2 ⟨_, hslot⟩

/-- The table has exactly the identifiers that are under some name. -/
theorem Sound.lookup_eq_none_iff (h : x.Sound) :
    x.files.lookup file = none ↔ ∀ name, file ∉ x.filesOf name := by
  constructor
  · intro hnone name hfile
    obtain ⟨position, node, hfound, -⟩ := h.mem_filesOf.1 hfile
    rw [(found?_eq_some.1 hfound).1] at hnone
    cases hnone
  · intro hnone
    refine Option.eq_none_iff_forall_ne_some.2 fun position hposition => ?_
    obtain ⟨node, hnode, hslot⟩ := fileAt?_eq_some.1 ((h.filed file position).1 hposition)
    exact hnone node.name (h.mem_filesOf.2 ⟨position, node, h.found?_iff.2 ⟨hnode, hslot⟩, rfl⟩)

theorem lt_of_node? (h : x.node? place = some node) : place < x.nodes.length := by
  unfold node? at h
  by_contra hle
  rw [List.getElem?_eq_none (Nat.not_lt.1 hle)] at h
  cases h

end Looking

/-! ### Changing one node -/

section Changing

variable {x y : Index} {name : SetName} {file : FileId} {place : Nat} {node : Node}
  {position : Position}

/-- The nodes when one of them is replaced. -/
theorem node?_set {names : List (SetName × Nat)} {files : List (FileId × Position)}
    (hplace : place < x.nodes.length) (value : Option Node) (other : Nat) :
    node? { nodes := x.nodes.set place value, names := names, files := files } other =
      if other = place then value else x.node? other :=
  join_getElem?_set x.nodes place other value hplace

/-- The nodes when one is added. -/
theorem node?_append {names : List (SetName × Nat)} {files : List (FileId × Position)}
    (value : Option Node) (other : Nat) :
    node? { nodes := x.nodes ++ [value], names := names, files := files } other =
      if other = x.nodes.length then value else x.node? other := by
  unfold node?
  dsimp only
  by_cases h : other = x.nodes.length
  · subst h
    simp
  · rw [if_neg h]
    rcases Nat.lt_or_gt_of_ne h with hlt | hlt
    · rw [List.getElem?_append_left hlt]
    · have hout : (x.nodes ++ [value]).length ≤ other := by
        rw [List.length_append]
        exact hlt
      rw [List.getElem?_eq_none hout, List.getElem?_eq_none (Nat.le_of_lt hlt)]

/-- An index that differs from a sound one in the node of a name. -/
structure Changed (x y : Index) (name : SetName) (place : Nat) (value : Option Node) : Prop where
  nodes : ∀ other, y.node? other = if other = place then value else x.node? other
  names : ∀ other, y.names.lookup other =
    if other = name then value.map fun _ => place else x.names.lookup other
  /-- The place is that of the name. -/
  name_eq : ∀ node, x.node? place = some node → node.name = name
  place_eq : ∀ other, x.names.lookup name = some other → other = place
  /-- The node that is put there is fit to stay. -/
  fit : ∀ node ∈ value, node.name = name ∧ node.removed = false ∧ node.files ≠ []

/-- The index is sound after the change, if its tables have no entry twice and the identifiers have
their positions. -/
theorem Changed.sound {value : Option Node} (h : Changed x y name place value) (hx : x.Sound)
    (hdistinct : (y.names.map Prod.fst).Nodup) (hnodup : (y.files.map Prod.fst).Nodup)
    (hfiled : ∀ file position, y.files.lookup file = some position ↔ y.fileAt? position = some file) :
    y.Sound := by
  constructor
  case distinct => exact hdistinct
  case named =>
    intro other otherPlace hlookup
    rw [h.names] at hlookup
    rw [h.nodes]
    by_cases hname : other = name
    · subst hname
      rw [if_pos rfl] at hlookup
      obtain ⟨node, rfl, rfl⟩ := Option.map_eq_some_iff.1 hlookup
      exact ⟨node, if_pos rfl, (h.fit node rfl).1⟩
    · rw [if_neg hname] at hlookup
      obtain ⟨node, hnode, rfl⟩ := hx.named other otherPlace hlookup
      -- names that are not touched keep their places, and places their names
      have hplace : otherPlace ≠ place := by
        rintro rfl
        exact hname (h.name_eq node hnode)
      exact ⟨node, (if_neg hplace).trans hnode, rfl⟩
  case node =>
    intro otherPlace node hnode
    rw [h.nodes] at hnode
    rw [h.names]
    by_cases hplace : otherPlace = place
    · subst hplace
      rw [if_pos rfl] at hnode
      obtain ⟨rfl, hfit⟩ := h.fit node hnode
      rw [if_pos rfl, hnode]
      exact ⟨rfl, hfit⟩
    · rw [if_neg hplace] at hnode
      obtain ⟨hlookup, hfit⟩ := hx.node otherPlace node hnode
      have hname : node.name ≠ name := by
        rintro rfl
        exact hplace (h.place_eq otherPlace hlookup)
      rw [if_neg hname]
      exact ⟨hlookup, hfit⟩
  case nodup => exact hnodup
  case filed => exact hfiled

/-- What becomes of the cycles of every name by the change. -/
theorem Changed.filesOf {value : Option Node} (h : Changed x y name place value) (hx : x.Sound)
    (hy : y.Sound) (other : SetName) :
    y.filesOf other =
      if other = name then (value.map Node.files).getD [] else x.filesOf other := by
  by_cases hname : other = name
  · subst hname
    rw [if_pos rfl]
    cases value with
    | none =>
        have hnone : y.names.lookup other = none := by rw [h.names, if_pos rfl, Option.map_none]
        rw [Option.map_none, Option.getD_none, hy.filesOf_eq_nil]
        refine Option.eq_none_iff_forall_ne_some.2 fun found hfound => ?_
        rw [(named?_eq_some.1 hfound).1] at hnone
        cases hnone
    | some node =>
        obtain ⟨rfl, -⟩ := h.fit node rfl
        have hnode : y.node? place = some node := by rw [h.nodes, if_pos rfl]
        exact hy.filesOf_name hnode
  · have hnamed : y.named? other = x.named? other := by
      -- no node at the place of the change has another name, before or after it
      refine Option.ext fun found => ?_
      obtain ⟨otherPlace, node⟩ := found
      rw [hy.named?_iff, h.nodes, hx.named?_iff]
      by_cases hplace : otherPlace = place
      · subst hplace
        rw [if_pos rfl]
        constructor
        · rintro ⟨hnode, rfl⟩
          exact absurd (h.fit node hnode).1 hname
        · rintro ⟨hnode, rfl⟩
          exact absurd (h.name_eq node hnode) hname
      · rw [if_neg hplace]
    rw [if_neg hname]
    unfold Index.filesOf
    rw [hnamed]

/-- A position at the place of a changed node is one in the node that was put there. -/
theorem Changed.fileAt? {value : Option Node} (h : Changed x y name place value) :
    y.fileAt? position =
      if position.place = place then value.bind fun node => node.fileAt? position.slot
      else x.fileAt? position := by
  unfold Index.fileAt?
  rw [h.nodes]
  split <;> rfl

/-! ### Entering a cycle -/

/-- The table of identifiers when an identifier that it did not have gets a position at which there was
none. -/
theorem Sound.filed_withEntry (h : x.Sound)
    (hfresh : x.files.lookup file = none) (hempty : x.fileAt? position = none)
    (hfiles : y.files = withEntry file position x.files)
    (hat : ∀ other, y.fileAt? other = if other = position then some file else x.fileAt? other)
    (f : FileId) (other : Position) :
    y.files.lookup f = some other ↔ y.fileAt? other = some f := by
  rw [hfiles, lookup_withEntry, hat]
  by_cases hf : f = file
  · subst hf
    rw [if_pos rfl]
    by_cases hother : other = position
    · simp [hother]
    · rw [if_neg hother, ← h.filed, hfresh]
      simpa using Ne.symm hother
  · rw [if_neg hf]
    by_cases hother : other = position
    · subst hother
      rw [if_pos rfl, h.filed, hempty]
      simpa using Ne.symm hf
    · rw [if_neg hother]
      exact h.filed f other

/-- A cycle is entered in the node of a file set that there is. -/
theorem Sound.enter_named (h : x.Sound) (hfresh : x.files.lookup file = none)
    (hnamed : x.named? name = some (place, node)) :
    (x.enter name file).Sound ∧ ∀ other, (x.enter name file).filesOf other =
      if other = name then x.filesOf name ++ [file] else x.filesOf other := by
  obtain ⟨hnode, rfl⟩ := h.named?_iff.1 hnamed
  obtain ⟨hlookup, hremoved, -⟩ := h.node place node hnode
  have henter : x.enter node.name file = {
      nodes := x.nodes.set place (some (node.push file))
      names := x.names
      files := withEntry file ⟨place, node.slots.length⟩ x.files } := by
    unfold enter
    rw [hnamed]
  have hchanged : Changed x (x.enter node.name file) node.name place (some (node.push file)) := by
    rw [henter]
    constructor
    case nodes => exact node?_set (lt_of_node? hnode) _
    case names =>
      intro other
      by_cases hname : other = node.name
      · rw [if_pos hname, hname]
        exact hlookup
      · rw [if_neg hname]
    case name_eq =>
      intro found hfound
      rw [Option.some.inj (hnode.symm.trans hfound)]
    case place_eq =>
      intro other hother
      exact Option.some.inj (hother.symm.trans hlookup)
    case fit =>
      rintro _ ⟨⟩
      exact ⟨rfl, hremoved, by simp⟩
  -- the position behind the last slot is the only one that is filled
  have hempty : x.fileAt? ⟨place, node.slots.length⟩ = none := by
    unfold Index.fileAt?
    rw [hnode]
    simp [Node.fileAt?]
  have hsound : (x.enter node.name file).Sound := by
    refine hchanged.sound h ?_ ?_ (h.filed_withEntry hfresh hempty (by rw [henter]) ?_)
    · rw [henter]
      exact h.distinct
    · rw [henter]
      exact nodup_withEntry h.nodup _ _
    · rintro ⟨other, slot⟩
      rw [hchanged.fileAt?]
      by_cases hother : other = place
      · subst hother
        unfold Index.fileAt?
        simp [hnode, Node.fileAt?_push]
      · simp [hother]
  refine ⟨hsound, fun other => ?_⟩
  rw [hchanged.filesOf h hsound, h.filesOf_name hnode, Option.map_some, Option.getD_some,
    Node.files_push]

/-- The first cycle of a file set is entered in a new node. -/
theorem Sound.enter_new (h : x.Sound) (hfresh : x.files.lookup file = none)
    (hnamed : x.named? name = none) :
    (x.enter name file).Sound ∧ ∀ other, (x.enter name file).filesOf other =
      if other = name then x.filesOf name ++ [file] else x.filesOf other := by
  have hlookup := h.lookup_eq_none hnamed
  have houtside : x.node? x.nodes.length = none := by simp [node?]
  have henter : x.enter name file = {
      nodes := x.nodes ++ [some { name := name, slots := [some file] }]
      names := withEntry name x.nodes.length x.names
      files := withEntry file ⟨x.nodes.length, 0⟩ x.files } := by
    unfold enter
    rw [hnamed]
  have hchanged : Changed x (x.enter name file) name x.nodes.length
      (some { name := name, slots := [some file] }) := by
    rw [henter]
    constructor
    case nodes => exact node?_append _
    case names => exact lookup_withEntry name _
    case name_eq =>
      intro found hfound
      rw [houtside] at hfound
      cases hfound
    case place_eq =>
      intro other hother
      rw [hlookup] at hother
      cases hother
    case fit =>
      rintro _ ⟨⟩
      exact ⟨rfl, rfl, by simp [Node.files]⟩
  have hempty : x.fileAt? ⟨x.nodes.length, 0⟩ = none := by
    unfold Index.fileAt?
    rw [houtside]
    rfl
  have hsound : (x.enter name file).Sound := by
    refine hchanged.sound h ?_ ?_ (h.filed_withEntry hfresh hempty (by rw [henter]) ?_)
    · rw [henter]
      exact nodup_withEntry h.distinct _ _
    · rw [henter]
      exact nodup_withEntry h.nodup _ _
    · rintro ⟨other, slot⟩
      rw [hchanged.fileAt?]
      by_cases hother : other = x.nodes.length
      · subst hother
        unfold Index.fileAt?
        rw [houtside]
        cases slot <;> simp [Node.fileAt?]
      · simp [hother]
  refine ⟨hsound, fun other => ?_⟩
  rw [hchanged.filesOf h hsound, h.filesOf_eq_nil.2 hnamed]
  rfl

/-- **A cycle with a new identifier is entered** behind the others of its name. -/
theorem Sound.enter (h : x.Sound) (name : SetName) (hfresh : x.files.lookup file = none) :
    (x.enter name file).Sound ∧ ∀ other, (x.enter name file).filesOf other =
      if other = name then x.filesOf name ++ [file] else x.filesOf other := by
  cases hnamed : x.named? name with
  | none => exact h.enter_new hfresh hnamed
  | some found => exact h.enter_named hfresh hnamed

/-! ### Dropping a cycle -/

/-- The index with a cycle dropped, once it is tidied up. -/
def drop (x : Index) (file : FileId) : Index := (x.vacate file).tidy file

/-- The table of identifiers when one loses its position. -/
theorem Sound.filed_withoutEntry (h : x.Sound) (hlookup : x.files.lookup file = some position)
    (hfiles : y.files = withoutEntry file x.files)
    (hat : ∀ other, y.fileAt? other = if other = position then none else x.fileAt? other)
    (f : FileId) (other : Position) :
    y.files.lookup f = some other ↔ y.fileAt? other = some f := by
  have hposition := (h.filed file position).1 hlookup
  rw [hfiles, lookup_withoutEntry, hat]
  by_cases hf : f = file
  · subst hf
    rw [if_pos rfl]
    by_cases hother : other = position
    · simp [hother]
    · rw [if_neg hother, ← h.filed, hlookup]
      simpa using Ne.symm hother
  · rw [if_neg hf]
    by_cases hother : other = position
    · subst hother
      rw [if_pos rfl, h.filed, hposition]
      simpa using Ne.symm hf
    · rw [if_neg hother]
      exact h.filed f other

/-- A cycle that is dropped leaves its slot, and its node goes with its last cycle. -/
theorem Sound.changed_drop (h : x.Sound) (hfound : x.found? file = some (position, node)) :
    Changed x (x.drop file) node.name position.place
        (if (node.vacate position.slot).files = [] then none
        else some (node.vacate position.slot)) ∧
      (x.drop file).files = withoutEntry file x.files ∧
      ((x.drop file).names = x.names ∨ (x.drop file).names = withoutEntry node.name x.names) := by
  obtain ⟨hnode, hslot⟩ := h.found?_iff.1 hfound
  obtain ⟨hlookup, hremoved, -⟩ := h.node _ node hnode
  have hlt := lt_of_node? hnode
  have hfiles := (found?_eq_some.1 hfound).1
  have hvacated : node? { x with
      nodes := x.nodes.set position.place (some (node.vacate position.slot)) } position.place =
        some (node.vacate position.slot) := by
    rw [node?_set hlt, if_pos rfl]
  have hgone : (node.vacate position.slot).removed = true ↔ (node.vacate position.slot).files = [] := by
    rw [Node.removed_vacate, hremoved]
    simp
  have hname : ∀ other, x.node? position.place = some other → other.name = node.name := by
    intro other hother
    rw [Option.some.inj (hnode.symm.trans hother)]
  have hplace : ∀ other, x.names.lookup node.name = some other → other = position.place := by
    intro other hother
    exact Option.some.inj (hother.symm.trans hlookup)
  -- the node goes with its last cycle, and stays where it is with the others
  by_cases hempty : (node.vacate position.slot).files = []
  · have hdrop : x.drop file = {
        nodes := x.nodes.set position.place none
        names := withoutEntry node.name x.names
        files := withoutEntry file x.files } := by
      unfold drop vacate tidy
      simp only [hfound, hfiles, hvacated, hgone.2 hempty, if_true, List.set_set, Node.name_vacate,
        hlookup]
    rw [if_pos hempty, hdrop]
    refine ⟨⟨node?_set hlt _, lookup_withoutEntry _, hname, hplace, ?_⟩, rfl, Or.inr rfl⟩
    rintro _ ⟨⟩
  · have hdrop : x.drop file = {
        nodes := x.nodes.set position.place (some (node.vacate position.slot))
        names := x.names
        files := withoutEntry file x.files } := by
      have hkept : (node.vacate position.slot).removed = false := by
        rw [← Bool.not_eq_true, hgone]
        exact hempty
      unfold drop vacate tidy
      simp [hfound, hfiles, hvacated, hkept]
    rw [if_neg hempty, hdrop]
    refine ⟨⟨node?_set hlt _, ?_, hname, hplace, ?_⟩, rfl, Or.inl rfl⟩
    · intro other
      by_cases hother : other = node.name
      · rw [if_pos hother, hother]
        exact hlookup
      · rw [if_neg hother]
    · rintro _ ⟨⟩
      have hkept : (node.vacate position.slot).removed ≠ true := fun hcon => hempty (hgone.1 hcon)
      exact ⟨rfl, Bool.eq_false_iff.2 hkept, hempty⟩

/-- An identifier that the index does not have is dropped without a trace. -/
theorem Sound.drop_of_not_found (h : x.Sound) (hfound : x.found? file = none) : x.drop file = x := by
  have hlookup : x.files.lookup file = none := by
    refine Option.eq_none_iff_forall_ne_some.2 fun position hposition => ?_
    obtain ⟨node, hnode, hslot⟩ := fileAt?_eq_some.1 ((h.filed file position).1 hposition)
    rw [h.found?_iff.2 ⟨hnode, hslot⟩] at hfound
    cases hfound
  have hsame : withoutEntry file x.files = x.files := by
    refine List.filter_eq_self.2 fun entry hentry => ?_
    have hne := List.lookup_eq_none_iff.1 hlookup entry hentry
    simpa using Ne.symm (by simpa using hne)
  unfold drop vacate tidy
  simp only [hfound, hlookup, hsame]

/-- The position of the cycle that is dropped is empty then, and the others are as they were. -/
theorem Sound.fileAt?_drop (h : x.Sound) (hfound : x.found? file = some (position, node))
    (other : Position) :
    (x.drop file).fileAt? other = if other = position then none else x.fileAt? other := by
  obtain ⟨hchanged, -, -⟩ := h.changed_drop hfound
  obtain ⟨hnode, hslot⟩ := h.found?_iff.1 hfound
  obtain ⟨place, taken⟩ := position
  obtain ⟨otherPlace, slot⟩ := other
  dsimp only at hchanged hnode hslot
  rw [hchanged.fileAt?]
  by_cases hother : otherPlace = place
  · subst hother
    have hslots := Node.fileAt?_vacate hslot slot
    rw [if_pos rfl]
    unfold Index.fileAt?
    rw [hnode]
    split
    · rename_i hempty
      rw [Node.fileAt?_eq_none hempty] at hslots
      simpa using hslots
    · simpa using hslots
  · simp [hother]

/-- The node of the cycle that is dropped keeps its other cycles. -/
theorem Sound.files_vacate (h : x.Sound) (hfound : x.found? file = some (position, node)) :
    (node.vacate position.slot).files = node.files.filter fun f => f ≠ file := by
  obtain ⟨hnode, hslot⟩ := h.found?_iff.1 hfound
  refine Node.files_vacate hslot fun other hother => ?_
  have hsame : x.found? file = some (⟨position.place, other⟩, node) := h.found?_iff.2 ⟨hnode, hother⟩
  exact congrArg (fun found => found.1.slot) (Option.some.inj (hsame.symm.trans hfound))

/-- A name that does not have the cycle loses none. -/
theorem filter_filesOf_of_notMem (hnot : file ∉ x.filesOf name) :
    (x.filesOf name).filter (fun f => f ≠ file) = x.filesOf name := by
  refine List.filter_eq_self.2 fun f hf => decide_eq_true ?_
  rintro rfl
  exact hnot hf

/-- **A cycle is dropped** from under its name. -/
theorem Sound.drop (h : x.Sound) (file : FileId) :
    (x.drop file).Sound ∧
      ∀ name, (x.drop file).filesOf name = (x.filesOf name).filter fun f => f ≠ file := by
  cases hfound : x.found? file with
  | none =>
      rw [h.drop_of_not_found hfound]
      refine ⟨h, fun name => (filter_filesOf_of_notMem fun hfile => ?_).symm⟩
      obtain ⟨position, node, hsome, -⟩ := h.mem_filesOf.1 hfile
      rw [hfound] at hsome
      cases hsome
  | some found =>
      obtain ⟨position, node⟩ := found
      obtain ⟨hchanged, hfiles, hnames⟩ := h.changed_drop hfound
      obtain ⟨hnode, hslot⟩ := h.found?_iff.1 hfound
      have hsound : (x.drop file).Sound := by
        refine hchanged.sound h ?_ ?_ (h.filed_withoutEntry (found?_eq_some.1 hfound).1 hfiles
          (h.fileAt?_drop hfound))
        · rcases hnames with hnames | hnames <;> rw [hnames]
          · exact h.distinct
          · exact nodup_withoutEntry h.distinct _
        · rw [hfiles]
          exact nodup_withoutEntry h.nodup _
      refine ⟨hsound, fun name => ?_⟩
      rw [hchanged.filesOf h hsound]
      by_cases hname : name = node.name
      · subst hname
        rw [if_pos rfl, h.filesOf_name hnode, ← h.files_vacate hfound]
        split
        · rename_i hempty
          rw [hempty]
          rfl
        · rfl
      · rw [if_neg hname, filter_filesOf_of_notMem fun hfile => ?_]
        obtain ⟨other, found, hsome, hother⟩ := h.mem_filesOf.1 hfile
        rw [hfound] at hsome
        cases hsome
        exact hname hother.symm

/-! ### What operations do -/

/-- What becomes of the cycles of a name. -/
def moved (m : Option Move) (files : SetName → List FileId) (name : SetName) : List FileId :=
  match m with
  | none => files name
  | some (.entered into file) => if name = into then files name ++ [file] else files name
  | some (.dropped file) => (files name).filter fun f => f ≠ file

/-- **The index follows every operation** that enters only new identifiers. -/
theorem Sound.move (h : x.Sound) {m : Option Move}
    (hfresh : ∀ name file, m = some (.entered name file) → x.files.lookup file = none) :
    ((x.follow m).settle m).Sound ∧ ((x.follow m).settle m).filesOf = moved m x.filesOf := by
  cases m with
  | none => exact ⟨h, rfl⟩
  | some m =>
      cases m with
      | entered name file =>
          obtain ⟨hsound, hfiles⟩ := h.enter name (hfresh name file rfl)
          refine ⟨hsound, funext fun other => (hfiles other).trans ?_⟩
          unfold moved
          dsimp only
          split
          · rename_i heq
            rw [heq]
          · rfl
      | dropped file =>
          obtain ⟨hsound, hfiles⟩ := h.drop file
          exact ⟨hsound, funext hfiles⟩

/-! ### Recovered file sets -/

/-- A table to which another name was entered lacks an identifier that it lacked. -/
theorem Sound.lookup_enter (h : x.Sound) (hfresh : x.files.lookup file = none) {other : FileId}
    (hne : other ≠ file) (hother : x.files.lookup other = none) :
    (x.enter name file).files.lookup other = none := by
  obtain ⟨hsound, hfiles⟩ := h.enter name hfresh
  refine hsound.lookup_eq_none_iff.2 fun under hin => ?_
  rw [hfiles] at hin
  have hnot := h.lookup_eq_none_iff.1 hother
  split at hin
  · rcases List.mem_append.1 hin with hin | hin
    · exact hnot name hin
    · exact hne (List.mem_singleton.1 hin)
  · exact hnot under hin

/-- Cycles entered in turn under one name. -/
theorem Sound.foldl_enter (h : x.Sound) (name : SetName) {cycles : List FileCycle}
    (hnodup : (cycles.map FileCycle.file).Nodup)
    (hfresh : ∀ c ∈ cycles, x.files.lookup c.file = none) :
    (cycles.foldl (fun x c => x.enter name c.file) x).Sound ∧
      ∀ other, (cycles.foldl (fun x c => x.enter name c.file) x).filesOf other =
        if other = name then x.filesOf name ++ cycles.map FileCycle.file else x.filesOf other := by
  induction cycles generalizing x with
  | nil =>
      refine ⟨h, fun other => ?_⟩
      split
      · rename_i heq
        rw [heq]
        exact (List.append_nil _).symm
      · rfl
  | cons c cycles ih =>
      obtain ⟨hout, hrest⟩ := List.nodup_cons.1 hnodup
      have hc := hfresh c List.mem_cons_self
      obtain ⟨hsound, hfiles⟩ := h.enter name hc
      obtain ⟨hlast, hall⟩ := ih hsound hrest fun d hd => h.lookup_enter hc
        (fun heq => hout (heq ▸ List.mem_map_of_mem hd)) (hfresh d (List.mem_cons_of_mem _ hd))
      refine ⟨hlast, fun other => (hall other).trans ?_⟩
      by_cases heq : other = name
      · rw [if_pos heq, if_pos heq, hfiles, if_pos rfl, List.append_assoc]
        rfl
      · rw [if_neg heq, if_neg heq, hfiles, if_neg heq]

/-- File sets entered in turn. -/
theorem Sound.foldl_enterAll (h : x.Sound) {sets : List FileSet}
    (hnodup : (sets.flatMap fun set => set.cycles.map FileCycle.file).Nodup)
    (hfresh : ∀ set ∈ sets, ∀ c ∈ set.cycles, x.files.lookup c.file = none) :
    (sets.foldl enterAll x).Sound ∧ ∀ other, (sets.foldl enterAll x).filesOf other =
      x.filesOf other ++ (sets.filter fun set => set.name = other).flatMap
        fun set => set.cycles.map FileCycle.file := by
  induction sets generalizing x with
  | nil => exact ⟨h, fun other => (List.append_nil _).symm⟩
  | cons set sets ih =>
      rw [List.flatMap_cons, List.nodup_append] at hnodup
      obtain ⟨hfirst, hrest, hapart⟩ := hnodup
      obtain ⟨hsound, hfiles⟩ := h.foldl_enter set.name hfirst
        (hfresh set List.mem_cons_self)
      have hnone : ∀ s ∈ sets, ∀ c ∈ s.cycles, (x.enterAll set).files.lookup c.file = none := by
        intro s hs c hc
        refine hsound.lookup_eq_none_iff.2 fun under hin => ?_
        have hold := h.lookup_eq_none_iff.1 (hfresh s (List.mem_cons_of_mem _ hs) c hc)
        rw [hfiles] at hin
        split at hin
        · rcases List.mem_append.1 hin with hin | hin
          · exact hold _ hin
          · exact hapart _ hin _ (List.mem_flatMap.2 ⟨s, hs, List.mem_map_of_mem hc⟩) rfl
        · exact hold _ hin
      obtain ⟨hlast, hall⟩ := ih hsound hrest hnone
      refine ⟨hlast, fun other => (hall other).trans ?_⟩
      rw [hfiles]
      by_cases heq : other = set.name
      · rw [if_pos heq, List.filter_cons_of_pos (by simpa using heq.symm), List.flatMap_cons, heq,
          List.append_assoc]
      · rw [if_neg heq, List.filter_cons_of_neg (by simpa using Ne.symm heq)]

/-- **The index of recovered file sets** is sound and has their cycles. -/
theorem sound_ofSets {sets : List FileSet}
    (hnodup : (sets.flatMap fun set => set.cycles.map FileCycle.file).Nodup) :
    (ofSets sets).Sound ∧ ∀ other, (ofSets sets).filesOf other =
      (sets.filter fun set => set.name = other).flatMap fun set => set.cycles.map FileCycle.file :=
  sound_empty.foldl_enterAll hnodup fun _ _ _ _ => rfl

end Changing

end Index

end FileDirectory
