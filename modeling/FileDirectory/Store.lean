/-
**The directory on its medium.**

A directory that is recorded keeps, for each file set, the sectors that hold its records.  After an
operation has changed a file set, the records of the set are written again: first the sectors of
cycles that are gone are cleared, and the sector of the lead item if the set is gone, then the lead
record and the records of every cycle are written.  Sectors are taken from the lowest free ones, and
a cleared sector is free again once the clearing has reached the medium.

A cycle whose records could not be written, for want of space or because a write failed, is marked
as suspect; it shows as disabled by a directory error from then on.

What an operation stages is written before the next one stages anything.  A write is therefore always
newer than what its sector holds, and writes carry no numbers by which the newer of two could be told.

Main definitions:

* `FileDirectory.Placement` — the sectors of one file set;
* `FileDirectory.Store` — the medium, the sectors in use, the placements and the suspect cycles;
* `FileDirectory.Staging` — the writes that bring the medium up to date, in order;
* `FileDirectory.Store.stage`, `FileDirectory.Store.flush`, `FileDirectory.Store.record` — staging
  the records of a file set, carrying staged writes out, and both.

Main results:

* `FileDirectory.Staging.free_nil` — clearing no sectors stages nothing;
* `FileDirectory.Store.write_nil` — without writes the medium stays as it is.
-/

import FileDirectory.Catalog
import FileDirectory.Record

set_option autoImplicit false

namespace FileDirectory

/-! ### Sectors in use -/

/-- Which sectors are in use, by number. -/
abbrev SectorMap := List Bool

namespace SectorMap

/-- The lowest sector that is not in use. -/
def lowestFree (inUse : SectorMap) : Option Nat := inUse.findIdx? fun used => !used

/-- Takes up to `count` sectors into use, the lowest first. -/
def claim : Nat → SectorMap → List Nat × SectorMap
  | 0, inUse => ([], inUse)
  | count + 1, inUse =>
    match lowestFree inUse with
    | none => ([], inUse)
    | some sector =>
      let (sectors, inUse) := claim count (inUse.set sector true)
      (sector :: sectors, inUse)

@[simp] theorem claim_zero (inUse : SectorMap) : claim 0 inUse = ([], inUse) := rfl

/-- Frees sectors. -/
def release (inUse : SectorMap) (sectors : List Nat) : SectorMap :=
  sectors.foldl (fun inUse sector => inUse.set sector false) inUse

end SectorMap

/-! ### Placements -/

/-- The sectors that hold the records of a file set. -/
structure Placement where
  /-- The sector of the lead item. -/
  lead : Option Nat := none
  /-- The sectors of each cycle: the identity record, the backup record and then the allocation
  records. -/
  cycles : List (FileId × List Nat) := []
  deriving DecidableEq, Repr

namespace Placement

/-- The sectors of a cycle. -/
def sectorsOf (p : Placement) (file : FileId) : List Nat := (p.cycles.lookup file).getD []

/-- All sectors of a file set. -/
def sectors (p : Placement) : List Nat :=
  p.lead.toList ++ p.cycles.flatMap Prod.snd

end Placement

/-! ### Staging -/

/-- A write that is still to be carried out. -/
structure Write where
  sector : Nat
  content : Sector
  /-- The cycle whose record is written, if it is that of a cycle. -/
  file : Option FileId := none
  deriving DecidableEq, Repr

/-- The writes that bring the medium up to date, and what came of choosing sectors for them. -/
structure Staging where
  inUse : SectorMap
  /-- The writes in the order in which they are carried out. -/
  writes : List Write := []
  /-- The sectors that are free once they have been cleared. -/
  freed : List Nat := []
  /-- The complaints about missing space. -/
  shortages : List Failure := []
  /-- The cycles for which there was no space. -/
  unplaced : List FileId := []
  deriving DecidableEq, Repr

namespace Staging

/-- Clears sectors. -/
def free (s : Staging) (sectors : List Nat) : Staging :=
  { s with
    writes := s.writes ++ sectors.map fun sector => { sector, content := Sector.zero }
    freed := s.freed ++ sectors }

@[simp] theorem free_nil (s : Staging) : s.free [] = s := by simp [free]

/-- Writes the lead record of a set to its sector, or to the lowest free one.  Also says which
sector that is. -/
def lead (s : Staging) (set : FileSet) (sector : Option Nat) : Option Nat × Staging :=
  let content := set.lead.record set.currentRange set.cycleCount
  match sector with
  | some sector => (some sector, { s with writes := s.writes ++ [{ sector, content }] })
  | none =>
    match s.inUse.lowestFree with
    | some sector =>
      (some sector, { s with
        inUse := s.inUse.set sector true
        writes := s.writes ++ [{ sector, content }] })
    | none => (none, { s with shortages := s.shortages ++ [.noSpaceForSet set.name] })

/-- Writes the records of a cycle to its sectors, of which it is given more, or some are taken from
it, as its records need.  Also says which sectors it then has.  Without enough sectors nothing is
written. -/
def cycle (s : Staging) (file : FileId) (item : MainItem) (sectors : List Nat) :
    List Nat × Staging :=
  let (extra, inUse) := s.inUse.claim (item.sectorsNeeded - sectors.length)
  let sectors := sectors ++ extra
  let s := { s with inUse := inUse }
  if sectors.length < item.sectorsNeeded then
    (sectors, { s with
      shortages := s.shortages ++ [.noSpaceForFile file]
      unplaced := s.unplaced ++ [file] })
  else
    let kept := sectors.take item.sectorsNeeded
    let s := s.free (sectors.drop item.sectorsNeeded)
    (kept, { s with
      writes := s.writes ++ (kept.zip item.records).map fun (sector, content) =>
        { sector, content, file := some file } })

/-- Writes the records of given cycles, each to the sectors that it has. -/
def cycles (s : Staging) (p : Placement) :
    List (FileId × MainItem) → List (FileId × List Nat) × Staging
  | [] => ([], s)
  | (file, item) :: rest =>
    let (sectors, s) := s.cycle file item (p.sectorsOf file)
    let (placed, s) := s.cycles p rest
    ((file, sectors) :: placed, s)

@[simp] theorem cycles_nil (s : Staging) (p : Placement) : s.cycles p [] = ([], s) := rfl

end Staging

/-! ### The store -/

/-- A directory on its medium. -/
structure Store where
  device : Device
  inUse : SectorMap
  /-- The sectors of each file set. -/
  placed : List (SetName × Placement) := []
  /-- The cycles whose records may differ from the catalog. -/
  suspect : List FileId := []

namespace Store

/-- The sectors of a file set. -/
def placement (s : Store) (name : SetName) : Placement := (s.placed.lookup name).getD {}

/-- The store with the sectors of a file set changed; a set without a placement has no sectors. -/
def place (s : Store) (name : SetName) (p : Option Placement) : Store :=
  { s with placed := p.toList.map (name, ·) ++ s.placed.filter fun entry => entry.1 ≠ name }

/-- The item of a cycle as it is shown and recorded: a suspect cycle is disabled. -/
def shown (s : Store) (c : FileCycle) : MainItem :=
  { c.item with disable := { c.item.disable with
      directoryError := c.item.disable.directoryError || s.suspect.contains c.file } }

/-- Stages the records of a file set, to the sectors that it has. -/
def stageSet (s : Store) (staging : Staging) (set : FileSet) (p : Placement) :
    Placement × Staging :=
  let (lead, staging) := staging.lead set p.lead
  let items := set.cycles.map fun c => (c.file, s.shown c)
  let (cycles, staging) := staging.cycles p items
  ({ lead := lead, cycles := cycles }, staging)

/-- Stages what brings the medium up to date with a file set, or with its absence. -/
def stage (s : Store) (name : SetName) (set? : Option FileSet) : Option Placement × Staging :=
  let p := s.placement name
  let gone := p.cycles.filter fun entry =>
    !(set?.any fun set => set.cycles.any fun c => c.file = entry.1)
  let staging := Staging.free { inUse := s.inUse } (gone.flatMap Prod.snd)
  match set? with
  | none => (none, staging.free p.lead.toList)
  | some set =>
    let (p, staging) := s.stageSet staging set p
    (some p, staging)

/-! ### Carrying writes out -/

/-- A write that failed. -/
structure WriteFailure where
  write : Write
  error : MediumError
  deriving DecidableEq, Repr

/-- Carries writes out in order, on through failures; also says which failed. -/
def write (device : Device) : List Write → Device × List WriteFailure
  | [] => (device, [])
  | w :: ws =>
    match device.write w.sector w.content with
    | (.ok (), device) => write device ws
    | (.error error, device) =>
      let (device, failures) := write device ws
      (device, { write := w, error := error } :: failures)

@[simp] theorem write_nil (device : Device) : write device [] = (device, []) := rfl

/-- Carries staged writes out.  A sector that could not be cleared stays in use. -/
def flush (s : Store) (staging : Staging) : Store × List WriteFailure :=
  let (device, failures) := write s.device staging.writes
  let cleared := staging.freed.filter fun sector =>
    !(failures.any fun f => f.write.sector = sector)
  ({ s with device := device, inUse := staging.inUse.release cleared }, failures)

/-- The cycles among the given ones that failed writes throw doubt on: a failed write of a cycle's
record on that cycle, any other failed write on them all. -/
def doubtful (failures : List WriteFailure) (files : List FileId) : List FileId :=
  files.filter fun file =>
    failures.any fun f => f.write.file = none || f.write.file = some file

/-- What an operation reports: the first failed write, or else the first complaint about missing
space. -/
def report (failures : List WriteFailure) (shortages : List Failure) : Option Failure :=
  match failures with
  | f :: _ => some (.medium f.error)
  | [] => shortages.head?

/-- Brings the medium up to date with a file set, or with its absence; also says what went wrong. -/
def record (s : Store) (name : SetName) (set? : Option FileSet) : Store × Option Failure :=
  let (p, staging) := s.stage name set?
  let (s, failures) := (s.place name p).flush staging
  let files := set?.toList.flatMap fun set => set.cycles.map FileCycle.file
  let doubts := staging.unplaced ++ doubtful failures files
  ({ s with suspect := s.suspect ++ doubts.filter fun file => !s.suspect.contains file },
    report failures staging.shortages)

end Store

end FileDirectory
