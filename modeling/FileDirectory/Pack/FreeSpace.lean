/-
**The free space of a pack.**

The tracks of a pack that belong to no file are kept as regions in ascending order; regions that
touch are merged.  Space is taken from one region whenever a region is large enough, and is gathered
from the largest regions otherwise.

Main definitions:

* `FileDirectory.FreeSpace` — the free regions of a pack;
* `FileDirectory.FreeSpace.allocate` — takes a number of tracks from wherever they fit best;
* `FileDirectory.FreeSpace.claim` — takes the tracks of a given region;
* `FileDirectory.FreeSpace.release` — gives the tracks of a region back.

Main results:

* `FileDirectory.FreeSpace.allocate_zero`, `FileDirectory.FreeSpace.claim_empty`,
  `FileDirectory.FreeSpace.release_empty` — moving no tracks changes nothing;
* `FileDirectory.FreeSpace.allocate_eq_none_iff` — space is refused exactly when too few tracks are
  free.
-/

import FileDirectory.Pack.Region

set_option autoImplicit false

namespace FileDirectory

/-- The free tracks of a pack. -/
structure FreeSpace where
  /-- The number of tracks of the pack. -/
  capacity : Nat
  /-- The number of free tracks. -/
  free : Nat
  /-- The free regions, ascending and apart from one another. -/
  regions : List Region
  deriving DecidableEq, Repr

namespace FreeSpace

/-- A pack whose tracks are all free. -/
def ofCapacity (capacity : Nat) : FreeSpace where
  capacity := capacity
  free := capacity
  regions := if capacity = 0 then [] else [⟨0, capacity⟩]

/-! ### Taking and giving back one region -/

/-- What is left of the free region `f` when the region `r` inside it is taken. -/
def remainder (f r : Region) : List Region :=
  (if f.first < r.first then [⟨f.first, r.first - f.first⟩] else []) ++
    (if r.limit < f.limit then [⟨r.limit, f.limit - r.limit⟩] else [])

/-- The free regions when the region `r`, inside one of them, is taken. -/
def carve (r : Region) : List Region → List Region
  | [] => []
  | f :: fs => if r.first < f.limit then remainder f r ++ fs else f :: carve r fs

/-- Takes a region that lies inside a free region. -/
def take (s : FreeSpace) (r : Region) : FreeSpace :=
  { s with free := s.free - r.count, regions := carve r s.regions }

/-- The free regions when the region `r`, apart from all of them, joins them. -/
def join (r : Region) : List Region → List Region
  | [] => [r]
  | f :: fs =>
    if f.limit < r.first then f :: join r fs
    else if f.limit = r.first then join ⟨f.first, f.count + r.count⟩ fs
    else if r.limit = f.first then ⟨r.first, r.count + f.count⟩ :: fs
    else r :: f :: fs

/-- Takes the tracks of `r` if they are all free; also says whether they were. -/
def claim (s : FreeSpace) (r : Region) : Bool × FreeSpace :=
  if r.count = 0 then (true, s)
  else if s.regions.any fun f => f.first ≤ r.first && r.limit ≤ f.limit then (true, s.take r)
  else (false, s)

/-- Gives the tracks of `r` back if they belong to the pack and none of them is free; also says
whether that was so. -/
def release (s : FreeSpace) (r : Region) : Bool × FreeSpace :=
  if r.count = 0 then (true, s)
  else if s.capacity < r.limit then (false, s)
  else if s.regions.any fun f => f.first < r.limit && r.first < f.limit then (false, s)
  else (true, { s with free := s.free + r.count, regions := join r s.regions })

@[simp] theorem claim_empty (s : FreeSpace) (first : Nat) : s.claim ⟨first, 0⟩ = (true, s) := rfl

@[simp] theorem release_empty (s : FreeSpace) (first : Nat) :
    s.release ⟨first, 0⟩ = (true, s) := rfl

/-! ### Choosing where to allocate -/

/-- A free region comes before another when space is gathered: the larger one first, and of equals
the lower one. -/
def gathersBefore (f g : Region) : Bool :=
  g.count < f.count || (f.count = g.count && f.first ≤ g.first)

/-- The parts of the given free regions, in their order, that make up `wanted` tracks. -/
def gather : Nat → List Region → List Region
  | _, [] => []
  | wanted, f :: fs =>
    if wanted = 0 then []
    else ⟨f.first, min f.count wanted⟩ :: gather (wanted - min f.count wanted) fs

/-- The lowest free region of exactly `count` tracks, or else the lowest one with more. -/
def single (s : FreeSpace) (count : Nat) : Option Region :=
  (s.regions.find? fun f => f.count = count) <|> s.regions.find? fun f => count < f.count

/-- The regions that an allocation of `count` tracks takes, ascending. -/
def choose (s : FreeSpace) (count : Nat) : List Region :=
  match s.single count with
  | some f => [⟨f.first, count⟩]
  | none =>
    (gather count (s.regions.mergeSort gathersBefore)).mergeSort fun f g => f.first ≤ g.first

/-- Takes `count` tracks, if that many are free; also says which regions they are. -/
def allocate (s : FreeSpace) (count : Nat) : Option (List Region × FreeSpace) :=
  if s.free < count then none
  else if count = 0 then some ([], s)
  else
    let taken := s.choose count
    some (taken, taken.foldl take s)

@[simp] theorem allocate_zero (s : FreeSpace) : s.allocate 0 = some ([], s) := by
  simp [allocate]

/-- Space is refused exactly when too few tracks are free. -/
theorem allocate_eq_none_iff {s : FreeSpace} {count : Nat} :
    s.allocate count = none ↔ s.free < count := by
  unfold allocate
  split
  · simp [*]
  · split <;> simp [*]

end FreeSpace

end FileDirectory
