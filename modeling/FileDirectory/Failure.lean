/-
**Failures of the directory.**

An operation that the directory refuses says why.  Callers branch on the kind of a failure; its text
is for people.

Main definitions:

* `FileDirectory.Operation` — the operations, by the name that messages give them;
* `FileDirectory.Failure` — the causes of failure;
* `FileDirectory.Failure.kind`, `FileDirectory.Failure.message` — the kind of a failure and its text.
-/

import FileDirectory.Item
import FileDirectory.Medium
import FileDirectory.Text.Quoted

set_option autoImplicit false

namespace FileDirectory

/-! ### Operations -/

/-- The operations of the directory. -/
inductive Operation where
  | createTape
  | createDisk
  | assign
  | catalog
  | abort
  | delete
  | release
  | releaseAll
  | allocateTracks
  | markWritten
  | setGuard
  | setInfo
  | cycleInfo
  | listSets
  deriving DecidableEq, Repr

/-- The name of an operation. -/
def Operation.text : Operation → String
  | createTape => "create tape file cycle"
  | createDisk => "create temporary disk file"
  | assign => "assign file cycle"
  | catalog => "catalog file cycle"
  | abort => "abort file cycle"
  | delete => "delete file cycle"
  | release => "release file"
  | releaseAll => "release all files"
  | allocateTracks => "allocate tracks"
  | markWritten => "mark tracks written"
  | setGuard => "set file guard"
  | setInfo => "get file set info"
  | cycleInfo => "get file cycle info"
  | listSets => "list file sets"

/-! ### Causes -/

/-- The texts that a caller passes. -/
inductive NameRole where
  | qualifier
  | filename
  | key
  deriving DecidableEq, Repr

/-- The name of a role. -/
def NameRole.text : NameRole → String
  | qualifier => "qualifier"
  | filename => "filename"
  | key => "key"

/-- The two keys of a file set. -/
inductive KeyRole where
  | read
  | write
  deriving DecidableEq, Repr

/-- The name of a key. -/
def KeyRole.text : KeyRole → String
  | read => "read"
  | write => "write"

/-- The numbers of granules that a caller passes. -/
inductive GranuleRole where
  | initialReserve
  | maximum
  deriving DecidableEq, Repr

/-- The name of a number of granules. -/
def GranuleRole.text : GranuleRole → String
  | initialReserve => "initial reserve"
  | maximum => "maximum granules"

/-- What makes a sector unreadable as a record. -/
inductive RecordFault where
  | leadFileType (code : Nat)
  | mainFileType (code : Nat)
  | extentCount (count : Nat)
  | recordType (code : Nat)
  deriving DecidableEq, Repr

/-- The text of a record fault. -/
def RecordFault.text : RecordFault → String
  | leadFileType code => s!"lead item file type {octal code}"
  | mainFileType code => s!"main item file type {octal code}"
  | extentCount count => s!"allocation sector holds {count} extents"
  | recordType code => s!"unknown record type {octal code}"

/-- What is wrong with the records on a medium as a whole. -/
inductive Inconsistency where
  | duplicateRecord (sector : Nat)
  | noBackup (key : CycleKey)
  | noLead (key : CycleKey)
  | orphanAllocations (key : CycleKey)
  | tracksNotFree (key : CycleKey) (region : Region)
  deriving DecidableEq, Repr

/-- The text of an inconsistency. -/
def Inconsistency.text : Inconsistency → String
  | duplicateRecord sector => s!"sector {sector} duplicates another record"
  | noBackup key => s!"{key.text} has no backup sector"
  | noLead key => s!"{key.text} has no lead item"
  | orphanAllocations key => s!"allocation sectors for {key.text} belong to no cycle"
  | tracksNotFree key region => s!"{key.text} claims pack tracks {region.text} which are not free"

/-- Why an operation fails. -/
inductive Failure where
  | noSuchSet (name : SetName)
  | noSuchFile (file : FileId)
  | noSuchCycle (name : SetName) (spec : CycleSpec)
  | notLive (key : CycleKey)
  | cycleExists (name : SetName) (spec : CycleSpec)
  | keysDiffer (name : SetName)
  | keyDiffers (role : KeyRole) (name : SetName)
  | reserveOverMaximum (reserve maximum : Nat)
  | noRoomForReserve (tracks : Nat)
  | granulesOverMaximum (file : FileId) (needed maximum : Nat)
  | packFull (needed free : Nat)
  | noRoomForGap (file : FileId) (gap : Region)
  | notAllAllocated (file : FileId) (region : Region)
  | rangeExceeded (key : CycleKey) (range maximum : Nat)
  | notAssigned (file : FileId) (client : Client)
  | notCreator (file : FileId)
  | setHasType (name : SetName) (fileType : FileType)
  | fileHasType (file : FileId) (fileType : FileType)
  | deadlinePassed (operation : Operation) (client : Client)
  | medium (cause : MediumError)
  | malformedRecord (cause : RecordFault)
  | inconsistent (cause : Inconsistency)
  | noSpaceForSet (name : SetName)
  | noSpaceForFile (file : FileId)
  | guarded (name : SetName)
  | badName (role : NameRole) (text : String)
  | badCycle (spec : CycleSpec)
  | setIsNew (name : SetName) (spec : CycleSpec)
  | cannotCreate (name : SetName) (spec : CycleSpec)
  | notCataloging (file : FileId) (state : CycleState)
  | badRegion (first count : Nat)
  | reserveTooLarge
  | tooManyGranules (role : GranuleRole) (count : Nat)
  | rangeTooLarge (range : Nat)
  deriving DecidableEq, Repr

namespace Failure

/-! ### Kinds -/

/-- The kinds of failures. -/
inductive Kind where
  | notFound
  | alreadyExists
  | wrongKey
  | quotaExceeded
  | rangeExceeded
  | notAssigned
  | wrongFileType
  | aborted
  | mediumIo
  | guarded
  | invalidRequest
  deriving DecidableEq, Repr

/-- The text of a kind. -/
def Kind.text : Kind → String
  | notFound => "not found"
  | alreadyExists => "already exists"
  | wrongKey => "wrong key"
  | quotaExceeded => "quota exceeded"
  | rangeExceeded => "range exceeded"
  | notAssigned => "not assigned"
  | wrongFileType => "wrong file type"
  | aborted => "aborted"
  | mediumIo => "directory medium I/O error"
  | guarded => "file is guarded"
  | invalidRequest => "invalid request"

/-- The kind of a failure. -/
def kind : Failure → Kind
  | noSuchSet .. | noSuchFile .. | noSuchCycle .. | notLive .. => .notFound
  | cycleExists .. => .alreadyExists
  | keysDiffer .. | keyDiffers .. => .wrongKey
  | reserveOverMaximum .. | noRoomForReserve .. | granulesOverMaximum .. | packFull ..
  | noRoomForGap .. | notAllAllocated .. => .quotaExceeded
  | rangeExceeded .. => .rangeExceeded
  | notAssigned .. | notCreator .. => .notAssigned
  | setHasType .. | fileHasType .. => .wrongFileType
  | deadlinePassed .. => .aborted
  | medium .. | malformedRecord .. | inconsistent .. | noSpaceForSet ..
  | noSpaceForFile .. => .mediumIo
  | guarded .. => .guarded
  | badName .. | badCycle .. | setIsNew .. | cannotCreate .. | notCataloging .. | badRegion ..
  | reserveTooLarge | tooManyGranules .. | rangeTooLarge .. => .invalidRequest

/-! ### Texts -/

/-- The text of a refused cycle name. -/
def badCycleText : CycleSpec → String
  | .absolute cycle => s!"absolute cycle {cycle} is outside 1..={Cycle.highestNumber}"
  | .relative offset => s!"relative cycle {CycleSpec.signedText offset} is not valid"
  | .unspecified => "cycle is not valid"

/-- What a failure says about its cause. -/
def detail : Failure → String
  | noSuchSet name => s!"{name.text} does not exist"
  | noSuchFile file => s!"file {file.text} does not exist"
  | noSuchCycle name spec => s!"{name.text}{spec.text} does not exist"
  | notLive key => s!"{key.text} is not a live cycle"
  | cycleExists name spec => s!"{name.text}{spec.text} already exists"
  | keysDiffer name => s!"keys do not match those of {name.text}"
  | keyDiffers role name => s!"{role.text} key does not match that of {name.text}"
  | reserveOverMaximum reserve maximum =>
    s!"initial reserve of {reserve} granules exceeds the maximum of {maximum}"
  | noRoomForReserve tracks => s!"pack full: cannot reserve {tracks} tracks"
  | granulesOverMaximum file needed maximum =>
    s!"{file.text} would need {needed} granules, but its maximum is {maximum}"
  | packFull needed free => s!"pack full: {needed} tracks needed, {free} free"
  | noRoomForGap file gap => s!"pack full: cannot allocate tracks {gap.text} of {file.text}"
  | notAllAllocated file region => s!"{file.text} tracks {region.text} are not all allocated"
  | rangeExceeded key range maximum =>
    s!"creating {key.text} would make the cycle range {range}, but the maximum is {maximum}"
  | notAssigned file client => s!"{file.text} is not assigned to {client.text}"
  | notCreator file => s!"{file.text} is being cataloged by another run"
  | setHasType name fileType => s!"{name.text} is a {fileType.text} file"
  | fileHasType file fileType => s!"{file.text} is a {fileType.text} file"
  | deadlinePassed operation client =>
    s!"{operation.text} for {client.text} passed its deadline"
  | medium cause => cause.message
  | malformedRecord cause => s!"malformed record: {cause.text}"
  | inconsistent cause => cause.text
  | noSpaceForSet name => s!"no directory space for {name.text}"
  | noSpaceForFile file => s!"no directory space for {file.text}"
  | guarded name => s!"{name.text} is guarded"
  | badName role text => s!"{role.text} {quoteText text} is not valid"
  | badCycle spec => badCycleText spec
  | setIsNew name spec =>
    s!"{name.text}{spec.text} names an existing cycle, but the file set is new"
  | cannotCreate name spec => s!"{name.text}{spec.text} cannot be created"
  | notCataloging file state => s!"{file.text} is {state.text}, not being cataloged"
  | badRegion first count => s!"track region {first}+{count} is not valid"
  | reserveTooLarge => "initial reserve is too large"
  | tooManyGranules role count => s!"{role.text} {count} does not fit in a directory word"
  | rangeTooLarge range => s!"maximum cycle range {range} is too large"

/-- The text of a failure. -/
def message (f : Failure) : String := s!"{f.kind.text}: {f.detail}"

end Failure

end FileDirectory
