/-
**The directory medium.**

The directory is recorded on a medium of sectors, each of twenty-eight words.  The medium is a
packed image, 126 bytes to a sector; the device that reads and writes it may refuse sectors.

Main definitions:

* `FileDirectory.Sector` — the words of a sector;
* `FileDirectory.Medium` — a packed image, with `read`, `write`, `ofImage` and `ofSectorCount`;
* `FileDirectory.Medium.readSector`, `FileDirectory.Medium.writeSector` — the accesses, through the
  transfers between words and bytes;
* `FileDirectory.Medium.refusal?`, `FileDirectory.Medium.put` — the two halves of a write: whether
  it is refused, and what it does if it is not;
* `FileDirectory.Device` — a medium behind a channel that may fail, in any pattern.

Main results:

* `FileDirectory.Device.sectorCount_write` — writing does not change the number of sectors;
* `FileDirectory.Medium.write_of_ge`, `FileDirectory.Medium.read_of_ge` — there is nothing beyond
  the last sector;
* `FileDirectory.Device.medium_write_of_error` — an attempt that fails leaves the medium as it is.
-/

import FileDirectory.Packed.Transfer

set_option autoImplicit false

namespace FileDirectory

/-! ### Sectors -/

/-- The number of words of a sector. -/
abbrev sectorWords : Nat := 28

/-- The number of bytes of a sector. -/
def sectorBytes : Nat := Packed.byteLength sectorWords

@[simp] theorem sectorBytes_eq : sectorBytes = 126 := rfl

/-- The words of a sector. -/
abbrev Sector := Vector Word sectorWords

namespace Sector

/-- A sector that starts with the given words; the rest is zero. -/
def ofWords (ws : List Word) : Sector := Vector.ofFn fun i => ws.getD i.val 0

/-- A sector of zeros. -/
def zero : Sector := ofWords []

/-- The words of a sector from `start` on. -/
def run (s : Sector) (start count : Nat) : List Word := (s.toList.drop start).take count

@[simp] theorem getElem_ofWords (ws : List Word) (i : Nat) (h : i < sectorWords) :
    (ofWords ws)[i] = ws.getD i 0 := by
  simp [ofWords]

end Sector

/-! ### Errors -/

/-- Why a sector cannot be read or written. -/
inductive MediumError where
  | noSuchSector (sector sectorCount : Nat)
  | readFailed (sector : Nat)
  | writeFailed (sector : Nat)
  | packing (fault : Packed.Fault)
  deriving DecidableEq, Repr

/-- The text of an error. -/
def MediumError.message : MediumError → String
  | .noSuchSector sector sectorCount =>
    s!"sector {sector} does not exist (the medium has {sectorCount} sectors)"
  | .readFailed sector => s!"failed to read sector {sector}"
  | .writeFailed sector => s!"failed to write sector {sector}"
  | .packing fault => s!"sector packing failed: {fault.message}"

/-! ### Media -/

/-- A packed image of sectors. -/
structure Medium where
  /-- The image. -/
  bytes : Array UInt8
  /-- Whether every write fails. -/
  failWrites : Bool := false
  /-- The number of sectors written so far. -/
  writes : Nat := 0
  deriving DecidableEq, Repr

namespace Medium

/-- The number of sectors of a medium. -/
def sectorCount (m : Medium) : Nat := m.bytes.size / sectorBytes

/-- The greatest number of bytes that an image can have. -/
def maxBytes : Nat := 0xFFFFFFFFFFFFFFFF

/-- A medium of free sectors; one that would be too large for any image has none. -/
def ofSectorCount (count : Nat) : Medium where
  bytes := Array.replicate (if count * sectorBytes ≤ maxBytes then count * sectorBytes else 0) 0

/-- The medium of an image, which must be a whole number of sectors. -/
def ofImage (bytes : Array UInt8) : Except MediumError Medium :=
  if bytes.size % sectorBytes = 0 then .ok { bytes }
  else .error (.packing (.notWholeBlocks bytes.size))

/-- Reads a sector. -/
def read (m : Medium) (sector : Nat) : Except MediumError Sector :=
  if sector < m.sectorCount then
    let start := sector * sectorBytes
    .ok (Sector.ofWords (Packed.unpackAll (m.bytes.extract start (start + sectorBytes)).toList))
  else .error (.noSuchSector sector m.sectorCount)

/-- Why a sector is not written, if it is not. -/
def refusal? (m : Medium) (sector : Nat) : Option MediumError :=
  if sector < m.sectorCount then
    if m.failWrites then some (.writeFailed sector) else none
  else some (.noSuchSector sector m.sectorCount)

/-- The medium with the content of one of its sectors replaced. -/
def put (m : Medium) (sector : Nat) (content : Sector) : Medium :=
  { m with
    bytes := overlay m.bytes (sector * sectorBytes) (Packed.packAll content.toList)
    writes := m.writes + 1 }

/-- Replacing a sector does not change the number of sectors. -/
@[simp] theorem sectorCount_put (m : Medium) (sector : Nat) (content : Sector) :
    (m.put sector content).sectorCount = m.sectorCount := by
  simp [put, sectorCount]

/-- Reads a sector into a buffer of its own. -/
def readSector (m : Medium) (sector : Nat) : Except MediumError Sector :=
  if sector < m.sectorCount then
    let buffer := Array.replicate sectorWords 0
    match (Packed.unpacking m.bytes (sector * sectorBytes) sectorWords 0).into buffer with
    | (.error fault, _) => .error (.packing fault)
    | (.ok _, words) =>
      if h : words.size = sectorWords then .ok ⟨words, h⟩ else .error (.readFailed sector)
  else .error (.noSuchSector sector m.sectorCount)

/-- Writes a sector into the image.  The medium is what is left of it, also if the write fails. -/
def writeSector (m : Medium) (sector : Nat) (content : Sector) : Except MediumError Unit × Medium :=
  match m.refusal? sector with
  | some e => (.error e, m)
  | none =>
    let start := sector * sectorBytes
    match (Packed.packing content.toArray 0 sectorWords start).into m.bytes with
    | (.error fault, bytes) => (.error (.packing fault), { m with bytes })
    | (.ok _, bytes) => (.ok (), { m with bytes, writes := m.writes + 1 })

/-- The medium after a sector has been written. -/
def write (m : Medium) (sector : Nat) (content : Sector) : Except MediumError Medium :=
  let (answer, after) := m.writeSector sector content
  answer.map fun _ => after

/-- There is nothing to read beyond the last sector. -/
theorem read_of_ge {m : Medium} {sector : Nat} (h : m.sectorCount ≤ sector) :
    m.read sector = .error (.noSuchSector sector m.sectorCount) := by
  simp [read, Nat.not_lt.2 h]

/-- There is nothing to write beyond the last sector. -/
theorem write_of_ge {m : Medium} {sector : Nat} (content : Sector) (h : m.sectorCount ≤ sector) :
    m.write sector content = .error (.noSuchSector sector m.sectorCount) := by
  simp [write, writeSector, refusal?, Nat.not_lt.2 h, Except.map]

/-- The image with its sectors cut or extended with zeros to the given number, on a medium of its
own that has not been written yet. -/
def resized (m : Medium) (count : Nat) : Medium where
  bytes := m.bytes.extract 0 (count * sectorBytes) ++
    Array.replicate (count * sectorBytes - m.bytes.size) 0

end Medium

/-! ### Devices -/

/-- A medium behind a channel on which sectors may fail to be read, and attempts at writing may
fail. -/
structure Device where
  medium : Medium
  /-- Whether a sector fails to be read. -/
  failsRead : Nat → Bool := fun _ => false
  /-- Whether the attempt of a given number fails to write a sector. -/
  failsWrite : Nat → Nat → Bool := fun _ _ => false
  /-- How many attempts at writing have been made. -/
  attempts : Nat := 0

namespace Device

/-- The number of sectors of a device. -/
def sectorCount (d : Device) : Nat := d.medium.sectorCount

/-- Reads a sector. -/
def read (d : Device) (sector : Nat) : Except MediumError Sector :=
  if d.failsRead sector then .error (.readFailed sector) else d.medium.read sector

/-- Attempts to write a sector. -/
def write (d : Device) (sector : Nat) (content : Sector) : Except MediumError Unit × Device :=
  if d.failsWrite d.attempts sector then
    (.error (.writeFailed sector), { d with attempts := d.attempts + 1 })
  else
    match d.medium.refusal? sector with
    | some e => (.error e, { d with attempts := d.attempts + 1 })
    | none =>
      (.ok (), { d with medium := d.medium.put sector content, attempts := d.attempts + 1 })

/-- An attempt that fails leaves the medium as it is. -/
theorem medium_write_of_error {d : Device} {sector : Nat} {content : Sector} {e : MediumError}
    (h : (d.write sector content).1 = .error e) : (d.write sector content).2.medium = d.medium := by
  unfold write at h ⊢
  split
  · rfl
  · split
    · rfl
    · simp_all

/-- Writing does not change the number of sectors. -/
@[simp] theorem sectorCount_write (d : Device) (sector : Nat) (content : Sector) :
    (d.write sector content).2.sectorCount = d.sectorCount := by
  unfold write
  split
  · rfl
  · split
    · rfl
    · simp [sectorCount]

end Device

end FileDirectory
