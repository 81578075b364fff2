/-
**Flags of a cycle.**

A control record keeps the flags of a cycle in fields of six or twelve bits, one bit for each flag.
Bits that belong to no flag are ignored when a field is read.

Main definitions:

* `FileDirectory.DescriptorFlags`, `FileDirectory.InhibitFlags`, `FileDirectory.FileFlags`,
  `FileDirectory.DisableFlags`, `FileDirectory.Characteristics` — the sets of flags, each with its
  `compose` and its `extract`.

Main results:

* `extract_compose` of each set — a field reads back as the flags that it was made from.
-/

set_option autoImplicit false

namespace FileDirectory

/-- The value of a bit that is set or not. -/
def flagBit (set : Bool) (bit : Nat) : Nat := if set then 1 <<< bit else 0

/-! ### Descriptor flags -/

/-- Descriptor flags, a field of twelve bits. -/
structure DescriptorFlags where
  unloaded : Bool := false
  backedUp : Bool := false
  saveOnCheckpoint : Bool := false
  toBeCataloged : Bool := false
  tape : Bool := false
  removable : Bool := false
  writeOnly : Bool := false
  readOnly : Bool := false
  toBeDropped : Bool := false
  deriving DecidableEq, Repr

namespace DescriptorFlags

/-- The field of the flags. -/
def compose (f : DescriptorFlags) : Nat :=
  flagBit f.unloaded 11 + flagBit f.backedUp 10 + flagBit f.saveOnCheckpoint 9 +
    flagBit f.toBeCataloged 6 + flagBit f.tape 5 + flagBit f.removable 3 +
    flagBit f.writeOnly 2 + flagBit f.readOnly 1 + flagBit f.toBeDropped 0

/-- The flags of a field. -/
def extract (field : Nat) : DescriptorFlags where
  unloaded := field.testBit 11
  backedUp := field.testBit 10
  saveOnCheckpoint := field.testBit 9
  toBeCataloged := field.testBit 6
  tape := field.testBit 5
  removable := field.testBit 3
  writeOnly := field.testBit 2
  readOnly := field.testBit 1
  toBeDropped := field.testBit 0

@[simp] theorem extract_compose (f : DescriptorFlags) : extract f.compose = f := by
  obtain ⟨a, b, c, d, e, g, h, i, j⟩ := f
  revert a b c d e g h i j
  decide +kernel

end DescriptorFlags

/-! ### Inhibit flags -/

/-- Inhibit flags, a field of six bits. -/
structure InhibitFlags where
  guarded : Bool := false
  unloadInhibited : Bool := false
  isPrivate : Bool := false
  exclusive : Bool := false
  writeOnly : Bool := false
  readOnly : Bool := false
  deriving DecidableEq, Repr

namespace InhibitFlags

/-- The field of the flags. -/
def compose (f : InhibitFlags) : Nat :=
  flagBit f.guarded 5 + flagBit f.unloadInhibited 4 + flagBit f.isPrivate 3 +
    flagBit f.exclusive 2 + flagBit f.writeOnly 1 + flagBit f.readOnly 0

/-- The flags of a field. -/
def extract (field : Nat) : InhibitFlags where
  guarded := field.testBit 5
  unloadInhibited := field.testBit 4
  isPrivate := field.testBit 3
  exclusive := field.testBit 2
  writeOnly := field.testBit 1
  readOnly := field.testBit 0

@[simp] theorem extract_compose (f : InhibitFlags) : extract f.compose = f := by
  obtain ⟨a, b, c, d, e, g⟩ := f
  revert a b c d e g
  decide +kernel

end InhibitFlags

/-! ### File flags -/

/-- File flags, a field of six bits. -/
structure FileFlags where
  large : Bool := false
  written : Bool := false
  deriving DecidableEq, Repr

namespace FileFlags

/-- The field of the flags. -/
def compose (f : FileFlags) : Nat := flagBit f.large 5 + flagBit f.written 1

/-- The flags of a field. -/
def extract (field : Nat) : FileFlags where
  large := field.testBit 5
  written := field.testBit 1

@[simp] theorem extract_compose (f : FileFlags) : extract f.compose = f := by
  obtain ⟨a, b⟩ := f
  revert a b
  decide +kernel

end FileFlags

/-! ### Disable flags -/

/-- Disable flags, a field of six bits whose top bit says that the cycle is disabled at all. -/
structure DisableFlags where
  directoryError : Bool := false
  assignedWrittenAtStop : Bool := false
  inaccessibleBackup : Bool := false
  cacheDrainFailure : Bool := false
  deriving DecidableEq, Repr

namespace DisableFlags

/-- Whether any of the flags is set. -/
def any (f : DisableFlags) : Bool :=
  f.directoryError || f.assignedWrittenAtStop || f.inaccessibleBackup || f.cacheDrainFailure

/-- The field of the flags. -/
def compose (f : DisableFlags) : Nat :=
  flagBit f.any 5 + flagBit f.directoryError 4 + flagBit f.assignedWrittenAtStop 3 +
    flagBit f.inaccessibleBackup 2 + flagBit f.cacheDrainFailure 1

/-- The flags of a field; its top bit says nothing by itself. -/
def extract (field : Nat) : DisableFlags where
  directoryError := field.testBit 4
  assignedWrittenAtStop := field.testBit 3
  inaccessibleBackup := field.testBit 2
  cacheDrainFailure := field.testBit 1

@[simp] theorem extract_compose (f : DisableFlags) : extract f.compose = f := by
  obtain ⟨a, b, c, d⟩ := f
  revert a b c d
  decide +kernel

end DisableFlags

/-! ### Physical characteristics -/

/-- The unit in which mass storage is allocated to a file. -/
inductive Granularity where
  | track
  | position
  deriving DecidableEq, Repr

/-- Physical characteristics, a field of six bits. -/
structure Characteristics where
  granularity : Granularity := .track
  wordAddressable : Bool := false
  deriving DecidableEq, Repr

namespace Characteristics

/-- The field of the characteristics. -/
def compose (f : Characteristics) : Nat :=
  flagBit (f.granularity = .position) 5 + flagBit f.wordAddressable 3

/-- The characteristics of a field. -/
def extract (field : Nat) : Characteristics where
  granularity := if field.testBit 5 then .position else .track
  wordAddressable := field.testBit 3

@[simp] theorem extract_compose (f : Characteristics) : extract f.compose = f := by
  obtain ⟨g, w⟩ := f
  cases g <;> cases w <;> rfl

end Characteristics

end FileDirectory
