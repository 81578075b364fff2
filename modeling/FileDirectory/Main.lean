/-
**The program.**

Reads the command line, lets a tool work on the content of a file, and writes what the tool yields
to another file or to the standard output.  What goes wrong is told on the standard error, and the
program then ends with a code other than zero: two if the command line asks for nothing, else one.

Main definitions:

* `FileDirectory.Program.run` — carries a command out;
* `main` — the program.
-/

import FileDirectory.Tool
import FileDirectory.Tool.CommandLine

set_option autoImplicit false

namespace FileDirectory.Program

/-- What the system says about a file that it does not read or write. -/
def systemText : IO.Error → String
  | .noFileOrDirectory _ code details => s!"{details} (os error {code})"
  | .permissionDenied _ code details => s!"{details} (os error {code})"
  | .inappropriateType _ code details => s!"{details} (os error {code})"
  | .resourceBusy code details => s!"{details} (os error {code})"
  | .resourceExhausted _ code details => s!"{details} (os error {code})"
  | .hardwareFault code details => s!"{details} (os error {code})"
  | .otherError code details => s!"{details} (os error {code})"
  | e => toString e

/-- Does something with a file, and names the file if that fails. -/
def onFile {α : Type} (path : String) (action : IO α) : IO (Except String α) := do
  try
    return .ok (← action)
  catch e =>
    let reason := systemText e
    return .error s!"{path}: {reason}"

/-- The bytes of a file. -/
def readFile (path : String) : IO (Except String (List UInt8)) :=
  onFile path do
    let handle ← IO.FS.Handle.mk path .read
    return (← handle.readBinToEnd).toList

/-- Writes bytes to a file. -/
def writeFile (path : String) (bytes : List UInt8) : IO (Except String Unit) :=
  onFile path (IO.FS.writeBinFile path ⟨bytes.toArray⟩)

/-- Lets a tool work on the content of a file and does something with what it yields. -/
def process {α : Type} (path : String) (tool : List UInt8 → Except Tool.Failure α)
    (finish : α → IO (Except String Unit)) : IO (Except String Unit) := do
  match ← readFile path with
  | .error message => return .error message
  | .ok input =>
    match tool input with
    | .error failure => return .error (failure.message path)
    | .ok result => finish result

/-- Writes a text to the standard output. -/
def printText (text : String) : IO (Except String Unit) :=
  onFile "-" (IO.print text)

/-- Carries a command out; what goes wrong is told as a message. -/
def run : Tool.Command → IO (Except String Unit)
  | .pack input output => process input Tool.pack (writeFile output)
  | .unpack input output => process input Tool.unpack (writeFile output)
  | .scan input => process input Tool.scan printText
  | .listDirectory packTracks image =>
    process image (fun bytes => Tool.listDirectory packTracks bytes.toArray) printText

end FileDirectory.Program

open FileDirectory in
/-- The program. -/
def main (args : List String) : IO UInt32 := do
  match Tool.Command.ofArguments args with
  | .error misuse =>
    IO.eprintln misuse.message
    return 2
  | .ok command =>
    match ← Program.run command with
    | .error message =>
      IO.eprintln message
      return 1
    | .ok () => return 0
