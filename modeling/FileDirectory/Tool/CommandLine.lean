/-
**The command line.**

The tools are called by name, with the files to read and to write after the name.  An option starts
with two dashes and has a value, which stands after an equals sign or is the next argument; options
may stand before or after the name of the tool, and after a bare pair of dashes there are none.

Main definitions:

* `FileDirectory.Tool.Arguments` — the arguments sorted into options and operands;
* `FileDirectory.Tool.Command` — what a command line asks for;
* `FileDirectory.Tool.Misuse` — why a command line asks for nothing;
* `FileDirectory.Tool.Command.ofArguments` — the command of a command line.

Main results:

* `FileDirectory.Tool.Arguments.ofList_operands` — arguments without dashes are operands.
-/

import FileDirectory.Catalog

set_option autoImplicit false

namespace FileDirectory.Tool

/-! ### Misuse -/

/-- Why a command line asks for nothing. -/
inductive Misuse where
  | noCommand
  | unknownCommand (name : String)
  | wrongOperands (command : String) (count : Nat)
  | missingValue (option : String)
  | unknownOption (option : String)
  | badValue (option value : String)
  deriving DecidableEq, Repr

/-- The text of a misuse. -/
def Misuse.message : Misuse → String
  | noCommand => "a command is required: pack, unpack, scan or list-directory"
  | unknownCommand name => s!"unknown command: {name}"
  | wrongOperands command count => s!"{command} does not take {count} files"
  | missingValue option => s!"--{option} needs a value"
  | unknownOption option => s!"unknown option: --{option}"
  | badValue option value => s!"--{option} cannot be {value}"

/-! ### Options and operands -/

/-- The arguments of a command line. -/
structure Arguments where
  /-- The options with their values, without the dashes. -/
  options : List (String × String) := []
  /-- The other arguments. -/
  operands : List String := []
  deriving DecidableEq, Repr

namespace Arguments

/-- What an argument is by itself. -/
inductive Kind where
  /-- A pair of dashes after which there are no options. -/
  | dashes
  /-- An option, with its value if the value stands after an equals sign. -/
  | option (name : String) (value : Option String)
  | operand
  deriving DecidableEq, Repr

/-- What an argument is by itself. -/
def kindOf (arg : String) : Kind :=
  match arg.toList with
  | ['-', '-'] => .dashes
  | '-' :: '-' :: cs =>
    let name := String.ofList (cs.takeWhile fun c => c ≠ '=')
    match cs.dropWhile fun c => c ≠ '=' with
    | [] => .option name none
    | _ :: value => .option name (some (String.ofList value))
  | _ => .operand

/-- Sorts arguments into options and operands. -/
def ofList : List String → Except Misuse Arguments
  | [] => .ok {}
  | arg :: args =>
    match kindOf arg with
    | .dashes => .ok { operands := args }
    | .operand => (fun a => { a with operands := arg :: a.operands }) <$> ofList args
    | .option name (some value) =>
      (fun a => { a with options := (name, value) :: a.options }) <$> ofList args
    | .option name none =>
      match args with
      | [] => .error (.missingValue name)
      | value :: args =>
        (fun a => { a with options := (name, value) :: a.options }) <$> ofList args

/-- Arguments without dashes are operands. -/
theorem ofList_operands {args : List String} (h : ∀ arg ∈ args, kindOf arg = .operand) :
    ofList args = .ok { operands := args } := by
  induction args with
  | nil => rfl
  | cons arg args ih =>
    have hrest := ih fun a ha => h a (List.mem_cons_of_mem _ ha)
    simp [ofList, h arg List.mem_cons_self, hrest, Functor.map, Except.map]

end Arguments

/-! ### Commands -/

/-- What a command line asks for. -/
inductive Command where
  | pack (input output : String)
  | unpack (input output : String)
  | scan (input : String)
  | listDirectory (packTracks : Nat) (image : String)
  deriving DecidableEq, Repr

namespace Command

/-- The levels of log messages that can be asked for.  The tools write no log. -/
def logLevels : List String :=
  ["silent", "fatal", "error", "warning", "info", "debug", "trace", "all"]

/-- The greatest number of tracks that can be asked for. -/
def maxTracks : Nat := 0xFFFFFFFFFFFFFFFF

/-- A number of tracks in decimal digits. -/
def tracks? (text : String) : Option Nat :=
  let digits := text.toList
  if digits ≠ [] ∧ digits.all Char.isDigit then
    let n := digits.foldl (fun n c => 10 * n + (c.toNat - '0'.toNat)) 0
    if n ≤ maxTracks then some n else none
  else none

/-- The number of tracks that the options ask for, the one given last, or the number of a pack that
nothing is said of. -/
def tracksFrom : List (String × String) → Nat → Except Misuse Nat
  | [], n => .ok n
  | (name, value) :: options, n =>
    if name = "pack-tracks" then
      match tracks? value with
      | some n => tracksFrom options n
      | none => .error (.badValue name value)
    else if name = "log-level" then
      if value ∈ logLevels then tracksFrom options n else .error (.badValue name value)
    else .error (.unknownOption name)

/-- Complains about options that only listing a directory has. -/
def checkPlain (options : List (String × String)) : Except Misuse Unit :=
  match options.find? fun option => option.1 = "pack-tracks" with
  | some option => .error (.unknownOption option.1)
  | none => (tracksFrom options 0).map fun _ => ()

/-- The command of a name and its operands. -/
def ofOperands (options : List (String × String)) (name : String) (files : List String) :
    Except Misuse Command :=
  match name, files with
  | "pack", [input, output] => (checkPlain options).map fun _ => .pack input output
  | "unpack", [input, output] => (checkPlain options).map fun _ => .unpack input output
  | "scan", [input] => (checkPlain options).map fun _ => .scan input
  | "list-directory", [image] =>
    (tracksFrom options ({} : Configuration).packTracks).map fun n => .listDirectory n image
  | "pack", _ | "unpack", _ | "scan", _ | "list-directory", _ =>
    .error (.wrongOperands name files.length)
  | _, _ => .error (.unknownCommand name)

/-- The command of a command line. -/
def ofArguments (args : List String) : Except Misuse Command := do
  let a ← Arguments.ofList args
  match a.operands with
  | [] => throw .noCommand
  | name :: files => ofOperands a.options name files

end Command

end FileDirectory.Tool
