/-
**Items of the catalog.**

The catalog has a lead item for every file set and a main item for every cycle of it.

Main definitions:

* `FileDirectory.SetName`, `FileDirectory.CycleKey`, `FileDirectory.FileId` — names of file sets and
  of cycles;
* `FileDirectory.LeadItem` — what is known of a file set;
* `FileDirectory.MainItem` — what is known of a cycle;
* `FileDirectory.FileCycle` — a cycle of the running directory, with those who have it assigned.

Main results:

* `FileDirectory.FileCycle.held_assign_self`, `FileDirectory.FileCycle.held_assign_of_ne` — an
  assignment counts for its client and for nobody else.
-/

import FileDirectory.Client
import FileDirectory.Cycle
import FileDirectory.Flags
import FileDirectory.Pack.ExtentTable
import FileDirectory.Word

set_option autoImplicit false

namespace FileDirectory

/-! ### Names -/

/-- The name of a file set. -/
structure SetName where
  qualifier : String
  filename : String
  deriving DecidableEq, Repr

namespace SetName

/-- The text of a name. -/
def text (name : SetName) : String := s!"{name.qualifier}*{name.filename}"

/-- Names are ordered by qualifier and then by filename. -/
instance : Ord SetName :=
  ⟨compareLex (compareOn qualifier) (compareOn filename)⟩

end SetName

/-- The name of a cycle of a file set. -/
structure CycleKey where
  set : SetName
  cycle : Nat
  deriving DecidableEq, Repr

namespace CycleKey

/-- The text of a cycle's name. -/
def text (key : CycleKey) : String := s!"{key.set.text}({key.cycle})"

/-- Cycles are ordered by file set and then by number. -/
instance : Ord CycleKey :=
  ⟨compareLex (compareOn set) (compareOn cycle)⟩

end CycleKey

/-- The number by which the running directory knows a cycle for as long as the cycle exists. -/
structure FileId where
  number : Nat
  deriving DecidableEq, Repr

/-- The text of a file identifier. -/
def FileId.text (file : FileId) : String := s!"fid:{file.number}"

/-! ### Kinds of files -/

/-- What a file set is kept on. -/
inductive FileType where
  | massStorage
  | tape
  | remote
  deriving DecidableEq, Repr

namespace FileType

/-- The text of a file type. -/
def text : FileType → String
  | massStorage => "mass storage"
  | tape => "tape"
  | remote => "remote"

/-- The code of a file type in a control record. -/
def code : FileType → Nat
  | massStorage => 0
  | tape => 1
  | remote => 2

/-- The file type of a code. -/
def ofCode? : Nat → Option FileType
  | 0 => some massStorage
  | 1 => some tape
  | 2 => some remote
  | _ => none

@[simp] theorem ofCode?_code (t : FileType) : ofCode? t.code = some t := by cases t <;> rfl

end FileType

/-- The directory that a file set belongs to. -/
inductive DirectoryIndex where
  | «local»
  | shared
  deriving DecidableEq, Repr

/-- Who may use a file set. -/
inductive Access where
  | «public»
  | «private»
  deriving DecidableEq, Repr

/-! ### Lead items -/

/-- What is known of a file set. -/
structure LeadItem where
  name : SetName
  projectId : String
  fileType : FileType
  /-- The greatest number of cycle numbers that the window may span. -/
  maxRange : Nat
  readKey : String := ""
  writeKey : String := ""
  /-- The highest cycle, zero until the first cycle is created. -/
  highest : Nat := 0
  guarded : Bool := false
  /-- Whether the highest cycle is being cataloged. -/
  plusOneExists : Bool := false
  renameInProgress : Bool := false
  directory : DirectoryIndex := .local
  access : Access := .private
  deriving DecidableEq, Repr

/-! ### Main items -/

/-- What is known of the backup of a cycle. -/
structure BackupInfo where
  creationTime : Nat := 0
  maxLevels : Nat := 0
  currentLevels : Nat := 0
  textBlockCount : Nat := 0
  startingPosition : Nat := 0
  /-- The first two reels. -/
  reels : String × String := ("", "")
  deriving DecidableEq, Repr

/-- What is known of a cycle. -/
structure MainItem where
  key : CycleKey
  state : CycleState
  fileType : FileType
  projectId : String
  accountId : String := ""
  timeOfFirstWrite : Nat := 0
  disable : DisableFlags := {}
  descriptor : DescriptorFlags
  fileFlags : FileFlags := {}
  characteristics : Characteristics := {}
  inhibit : InhibitFlags
  assignMnemonic : String := ""
  /-- How often the cycle has ever been assigned. -/
  cumulativeAssigns : Nat := 0
  /-- How often the cycle is assigned. -/
  assigned : Nat := 0
  lastReference : Nat := 0
  catalogTime : Nat := 0
  initialGranules : Nat := 0
  maxGranules : Nat := 0
  highestGranule : Nat := 0
  /-- One past the highest file track that was written. -/
  highestTrackWritten : Nat := 0
  placement : Nat := 0
  backup : BackupInfo := {}
  table : ExtentTable := {}
  deriving DecidableEq, Repr

namespace MainItem

/-- The item of a new cycle of a file set. -/
def ofLead (lead : LeadItem) (cycle : Nat) (state : CycleState) : MainItem where
  key := ⟨lead.name, cycle⟩
  state := state
  fileType := lead.fileType
  projectId := lead.projectId
  descriptor := {
    tape := lead.fileType = .tape
    toBeCataloged := state = .cataloging
    toBeDropped := state = .dropping }
  inhibit := { guarded := lead.guarded, isPrivate := lead.access = .private }

/-- The item in a new state, its descriptor flags kept in step. -/
def withState (m : MainItem) (state : CycleState) : MainItem :=
  { m with
    state := state
    descriptor := { m.descriptor with
      toBeCataloged := state = .cataloging
      toBeDropped := state = .dropping } }

@[simp] theorem state_withState (m : MainItem) (state : CycleState) :
    (m.withState state).state = state := rfl

@[simp] theorem table_withState (m : MainItem) (state : CycleState) :
    (m.withState state).table = m.table := rfl

end MainItem

/-! ### Cycles of the running directory -/

/-- A cycle of the running directory. -/
structure FileCycle where
  file : FileId
  item : MainItem
  /-- The run that is cataloging the cycle. -/
  creator : Option Client := none
  /-- The clients that have the cycle assigned, and how often. -/
  holders : List (Client × Nat) := []
  deriving DecidableEq, Repr

namespace FileCycle

/-- How often a client has the cycle assigned. -/
def held (c : FileCycle) (client : Client) : Nat := (c.holders.lookup client).getD 0

/-- One more assignment for a client in a list of holders. -/
def addHolder (client : Client) : List (Client × Nat) → List (Client × Nat)
  | [] => [(client, 1)]
  | (other, n) :: rest =>
    if client = other then (other, n + 1) :: rest else (other, n) :: addHolder client rest

/-- The cycle assigned once more, to a client at a time.  The count of all assignments that were
ever made sticks at the largest value of a word.  The assignments that there are, of
all clients and of each, are counted without a bound: with counters of thirty-two bits they would
overflow at 2³² assignments of one cycle, and histories with as many are outside of this model. -/
def assign (c : FileCycle) (client : Client) (now : Nat) : FileCycle :=
  { c with
    holders := addHolder client c.holders
    item := { c.item with
      assigned := c.item.assigned + 1
      cumulativeAssigns := min (c.item.cumulativeAssigns + 1) Word.maxValue
      lastReference := now } }

/-- The holders after a client has given up `count` of its assignments. -/
def dropHolder (client : Client) (count : Nat) : List (Client × Nat) → List (Client × Nat)
  | [] => []
  | (other, n) :: rest =>
    if client = other then if n ≤ count then rest else (other, n - count) :: rest
    else (other, n) :: dropHolder client count rest

/-- The cycle after a client has given up `count` of its assignments. -/
def unassign (c : FileCycle) (client : Client) (count : Nat) : FileCycle :=
  { c with
    holders := dropHolder client count c.holders
    item := { c.item with assigned := c.item.assigned - min count (c.held client) } }

theorem lookup_addHolder_self (client : Client) (holders : List (Client × Nat)) :
    ((addHolder client holders).lookup client).getD 0 = (holders.lookup client).getD 0 + 1 := by
  induction holders with
  | nil => simp [addHolder]
  | cons h rest ih =>
    obtain ⟨other, n⟩ := h
    by_cases heq : client = other
    · subst heq; simp [addHolder]
    · have hne : (client == other) = false := by simpa using heq
      simp [addHolder, heq, List.lookup_cons, hne, ih]

theorem lookup_addHolder_of_ne {client other : Client} (h : other ≠ client)
    (holders : List (Client × Nat)) :
    (addHolder client holders).lookup other = holders.lookup other := by
  have hne : (other == client) = false := by simpa using h
  induction holders with
  | nil => simp [addHolder, List.lookup_cons, hne]
  | cons hd rest ih =>
    obtain ⟨d, n⟩ := hd
    by_cases heq : client = d
    · subst heq; simp [addHolder, List.lookup_cons, hne]
    · simp [addHolder, heq, List.lookup_cons, ih]

/-- An assignment counts for its client. -/
@[simp] theorem held_assign_self (c : FileCycle) (client : Client) (now : Nat) :
    (c.assign client now).held client = c.held client + 1 :=
  lookup_addHolder_self client c.holders

/-- An assignment counts for nobody else. -/
theorem held_assign_of_ne (c : FileCycle) {client other : Client} (h : other ≠ client)
    (now : Nat) : (c.assign client now).held other = c.held other := by
  simp [held, assign, lookup_addHolder_of_ne h]

end FileCycle

end FileDirectory
