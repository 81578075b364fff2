/-
**Allocation tables.**

The tracks of a file are numbered from zero and lie on the pack in extents.  The allocation table of
a file holds its extents by ascending file track; extents that follow one another both in the file
and on the pack are merged.

Main definitions:

* `FileDirectory.Extent` — a run of file tracks and where it lies on the pack;
* `FileDirectory.ExtentTable` — the extents of a file;
* `FileDirectory.ExtentTable.insert` — adds a run of tracks to a file;
* `FileDirectory.ExtentTable.takeAll` — takes all tracks from a file;
* `FileDirectory.ExtentTable.gaps` — the parts of a region of file tracks that have no pack tracks;
* `FileDirectory.ExtentTable.packTrack?` — where a file track lies on the pack.

Main results:

* `FileDirectory.ExtentTable.insert_empty` — adding no tracks changes nothing;
* `FileDirectory.ExtentTable.gaps_nil` — in a file without tracks every region is a gap.
-/

import FileDirectory.Pack.Region

set_option autoImplicit false

namespace FileDirectory

/-- A run of consecutive file tracks that lies on consecutive pack tracks. -/
structure Extent where
  /-- The first track of the file. -/
  fileTrack : Nat
  /-- The pack track that it lies on. -/
  packTrack : Nat
  /-- How many tracks there are. -/
  count : Nat
  deriving DecidableEq, Repr

namespace Extent

/-- One past the last file track. -/
def fileLimit (e : Extent) : Nat := e.fileTrack + e.count

/-- One past the last pack track. -/
def packLimit (e : Extent) : Nat := e.packTrack + e.count

/-- The pack tracks of an extent. -/
def packRegion (e : Extent) : Region := ⟨e.packTrack, e.count⟩

/-- The extent `e` continues the extent `d` both in the file and on the pack. -/
def Continues (d e : Extent) : Prop :=
  d.fileLimit = e.fileTrack ∧ d.packLimit = e.packTrack

instance (d e : Extent) : Decidable (d.Continues e) := by
  unfold Continues; infer_instance

/-- The extent `d` made longer by the extent that continues it. -/
def append (d e : Extent) : Extent := { d with count := d.count + e.count }

end Extent

/-- The extents of a file by ascending file track. -/
structure ExtentTable where
  extents : List Extent := []
  deriving DecidableEq, Repr

namespace ExtentTable

/-! ### Looking up -/

/-- The number of allocated tracks. -/
def tracks (t : ExtentTable) : Nat := (t.extents.map Extent.count).foldr (· + ·) 0

/-- The pack regions of a file, by ascending file track. -/
def packRegions (t : ExtentTable) : List Region := t.extents.map Extent.packRegion

/-- Where a file track lies on the pack. -/
def packTrack? (t : ExtentTable) (track : Nat) : Option Nat :=
  (t.extents.find? fun e => e.fileTrack ≤ track && track < e.fileLimit).map fun e =>
    e.packTrack + (track - e.fileTrack)

/-- The last extent that starts before a file track. -/
def before? (t : ExtentTable) (track : Nat) : Option Extent :=
  (t.extents.filter fun e => e.fileTrack < track).getLast?

/-- The extent that starts at a file track. -/
def startingAt? (t : ExtentTable) (track : Nat) : Option Extent :=
  t.extents.find? fun e => e.fileTrack = track

/-! ### Adding tracks -/

/-- The table without the extent that starts at a file track. -/
def erase (t : ExtentTable) (track : Nat) : ExtentTable :=
  ⟨t.extents.filter fun e => e.fileTrack ≠ track⟩

/-- The table with an extent put in its place, instead of any that starts at the same track. -/
def put (t : ExtentTable) (e : Extent) : ExtentTable :=
  ⟨t.extents.filter (fun d => d.fileTrack < e.fileTrack) ++
    e :: t.extents.filter (fun d => e.fileTrack < d.fileTrack)⟩

/-- The table without the extent that `e` continues, and that extent with `e` appended. -/
def absorbBefore (t : ExtentTable) (e : Extent) : ExtentTable × Extent :=
  match t.before? e.fileTrack with
  | some d => if d.Continues e then (t.erase d.fileTrack, d.append e) else (t, e)
  | none => (t, e)

/-- The table without the extent that continues `e`, and `e` with that extent appended. -/
def absorbAfter (t : ExtentTable) (e : Extent) : ExtentTable × Extent :=
  match t.startingAt? e.fileLimit with
  | some d => if e.Continues d then (t.erase d.fileTrack, e.append d) else (t, e)
  | none => (t, e)

/-- Adds the file tracks of an extent, which are not in the table yet. -/
def insert (t : ExtentTable) (e : Extent) : ExtentTable :=
  if e.count = 0 then t
  else
    let (t, e) := t.absorbBefore e
    let (t, e) := t.absorbAfter e
    t.put e

@[simp] theorem insert_empty (t : ExtentTable) (fileTrack packTrack : Nat) :
    t.insert ⟨fileTrack, packTrack, 0⟩ = t := by simp [insert]

/-- Adds consecutive file tracks, the first of them `fileTrack`, that lie on the given regions of
the pack in turn. -/
def insertRegions (t : ExtentTable) (fileTrack : Nat) : List Region → ExtentTable
  | [] => t
  | r :: rs => insertRegions (t.insert ⟨fileTrack, r.first, r.count⟩) (fileTrack + r.count) rs

@[simp] theorem insertRegions_nil (t : ExtentTable) (fileTrack : Nat) :
    t.insertRegions fileTrack [] = t := rfl

/-! ### Taking the tracks -/

/-- Takes all tracks from a table: the pack regions that it held, and the table without them. -/
def takeAll (t : ExtentTable) : List Region × ExtentTable := (t.packRegions, {})

/-! ### Gaps -/

/-- The tracks from `cursor` up to `limit` that none of the given ascending extents covers. -/
def gapsFrom (cursor limit : Nat) : List Extent → List Region
  | [] => if cursor < limit then [⟨cursor, limit - cursor⟩] else []
  | e :: es =>
    (if cursor < e.fileTrack then [⟨cursor, e.fileTrack - cursor⟩] else []) ++
      gapsFrom (max cursor e.fileLimit) limit es

/-- The parts of a region of file tracks that have no pack tracks behind them.  An extent that
starts before the region may still cover its beginning. -/
def gaps (t : ExtentTable) (r : Region) : List Region :=
  let start := ((t.before? r.first).map Extent.fileTrack).getD r.first
  gapsFrom r.first r.limit
    (t.extents.filter fun e => start ≤ e.fileTrack && e.fileTrack < r.limit)

/-- Whether every track of a region has a pack track behind it. -/
def covers (t : ExtentTable) (r : Region) : Bool := (t.gaps r).isEmpty

/-- In a file without tracks every region is a gap. -/
theorem gaps_nil (first count : Nat) :
    ({} : ExtentTable).gaps ⟨first, count⟩ =
      if count = 0 then [] else [⟨first, count⟩] := by
  by_cases h : count = 0
  · simp [gaps, gapsFrom, before?, Region.limit, h]
  · simp [gaps, gapsFrom, before?, Region.limit, h, Nat.pos_of_ne_zero h]

end ExtentTable

end FileDirectory
