/-
**File sets.**

A file set is a lead item with the cycles that exist, in the order in which they were created.

Main definitions:

* `FileDirectory.FileSet` — a lead item and its cycles;
* `FileDirectory.FileSet.currentRange`, `FileDirectory.FileSet.cycleCount` — how many cycle numbers
  the window spans and how many cycles count;
* `FileDirectory.FileSet.resolve` — the existing cycle that a caller names;
* `FileDirectory.FileSet.chooseNew` — the number of a cycle that is to be created.

Main results:

* `FileDirectory.FileSet.find?_eq_some` — a cycle found by its identifier is one of the set;
* `FileDirectory.FileSet.mem_liveByAge` — the live cycles by age are the live cycles.
-/

import FileDirectory.Failure

set_option autoImplicit false

namespace FileDirectory

/-- A lead item with its cycles in the order of their creation. -/
structure FileSet where
  lead : LeadItem
  cycles : List FileCycle := []
  deriving DecidableEq, Repr

namespace FileSet

/-! ### Looking at a file set -/

/-- The name of a file set. -/
def name (set : FileSet) : SetName := set.lead.name

/-- The cycle with an identifier. -/
def find? (set : FileSet) (file : FileId) : Option FileCycle :=
  set.cycles.find? fun c => c.file = file

/-- A cycle found by its identifier is one of the set. -/
theorem find?_eq_some {set : FileSet} {file : FileId} {c : FileCycle}
    (h : set.find? file = some c) : c ∈ set.cycles ∧ c.file = file :=
  ⟨List.mem_of_find?_eq_some h, by simpa using List.find?_some h⟩

/-- How far a cycle lies below the highest one. -/
def ageOf (set : FileSet) (c : FileCycle) : Nat := Cycle.age set.lead.highest c.item.key.cycle

/-- The number of cycles that count. -/
def cycleCount (set : FileSet) : Nat := set.cycles.countP fun c => c.item.state.isCounted

/-- The number of cycle numbers from the oldest cycle to the highest one. -/
def currentRange (set : FileSet) : Nat :=
  set.cycles.foldl (fun range c => max range (set.ageOf c + 1)) 0

/-- The cycles with the newest first. -/
def byAge (set : FileSet) : List FileCycle :=
  set.cycles.mergeSort fun c d => set.ageOf c ≤ set.ageOf d

/-- The live cycles with the newest first. -/
def liveByAge (set : FileSet) : List FileCycle :=
  (set.cycles.filter fun c => c.item.state = .live).mergeSort fun c d => set.ageOf c ≤ set.ageOf d

/-- The live cycles by age are the live cycles. -/
theorem mem_liveByAge {set : FileSet} {c : FileCycle} :
    c ∈ set.liveByAge ↔ c ∈ set.cycles ∧ c.item.state = .live := by
  simp [liveByAge]

/-! ### Changing a file set -/

/-- The lead item brought into step with whether the highest cycle is being cataloged. -/
def refresh (set : FileSet) : FileSet :=
  { set with lead := { set.lead with
      plusOneExists := set.cycles.any fun c =>
        c.item.state = .cataloging && c.item.key.cycle = set.lead.highest } }

/-- The set with the cycle of an identifier changed. -/
def modify (set : FileSet) (file : FileId) (f : FileCycle → FileCycle) : FileSet :=
  { set with cycles := set.cycles.map fun c => if c.file = file then f c else c }

/-- The set without the cycle of an identifier. -/
def erase (set : FileSet) (file : FileId) : FileSet :=
  { set with cycles := set.cycles.filter fun c => c.file ≠ file }

/-! ### Naming an existing cycle -/

/-- Whether a client sees a cycle: a live cycle is seen by everybody, one that is being cataloged by
its creator, and one that is being dropped by nobody. -/
def visible (client : Client) (c : FileCycle) : Bool :=
  match c.item.state with
  | .live => true
  | .cataloging => c.creator = some client
  | .dropping | .dropped => false

/-- The existing cycle that a caller names, if the caller sees it. -/
def resolve? (set : FileSet) (spec : CycleSpec) (client : Client) : Option FileCycle :=
  match spec with
  | .absolute n => set.cycles.find? fun c => c.item.key.cycle = n && visible client c
  | .unspecified => set.liveByAge.head?
  | .relative offset =>
    if offset ≤ 0 then set.liveByAge[offset.natAbs]?
    else
      set.cycles.find? fun c =>
        c.item.state = .cataloging && c.item.key.cycle = set.lead.highest && visible client c

/-- The existing cycle that a caller names, or a complaint that it does not exist. -/
def resolve (set : FileSet) (spec : CycleSpec) (client : Client) : Except Failure FileCycle :=
  match set.resolve? spec client with
  | some c => .ok c
  | none => .error (.noSuchCycle set.name spec)

/-! ### Numbering a new cycle -/

/-- The number of the first cycle of a new set. -/
def firstNumber (set : FileSet) : CycleSpec → Except Failure Nat
  | .absolute n => .ok n
  | .unspecified => .ok 1
  | .relative offset => if offset = 1 then .ok 1 else .error (.setIsNew set.name (.relative offset))

/-- The number that a caller asks for when a cycle is added to a set. -/
def nextNumber (set : FileSet) : CycleSpec → Except Failure Nat
  | .absolute n => .ok n
  | .unspecified => plusOne
  | .relative offset =>
    if offset = 1 then plusOne
    else if offset.natAbs < set.liveByAge.length then
      .error (.cycleExists set.name (.relative offset))
    else .error (.cannotCreate set.name (.relative offset))
where
  /-- The number after the highest one, unless that cycle is still being cataloged. -/
  plusOne : Except Failure Nat :=
    if set.lead.plusOneExists then .error (.cycleExists set.name (.relative 1))
    else .ok (Cycle.next set.lead.highest)

/-- The number of a cycle that is to be created, and whether it becomes the highest one.  A number
inside the window fills a hole; any other number moves the window up, as far as the set allows. -/
def chooseNew (set : FileSet) (spec : CycleSpec) : Except Failure (Nat × Bool) := do
  if set.cycles.isEmpty then
    return (← set.firstNumber spec, true)
  let number ← set.nextNumber spec
  if set.cycles.any fun c => c.item.key.cycle = number then
    throw (.cycleExists set.name (.absolute number))
  if Cycle.age set.lead.highest number < set.lead.maxRange then
    return (number, false)
  let range := set.currentRange + Cycle.ahead set.lead.highest number
  if set.lead.maxRange < range then
    throw (.rangeExceeded ⟨set.name, number⟩ range set.lead.maxRange)
  return (number, true)

end FileSet

end FileDirectory
