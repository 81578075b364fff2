/-
**Tools for files.**

Four tools work on whole files: word lists are packed and unpacked, source text is scanned, and the
image of a directory medium is listed.  Each takes the bytes of its input and yields its output, or
says what is wrong with the input.

Main definitions:

* `FileDirectory.Tool.pack`, `FileDirectory.Tool.unpack` — word lists and packed bytes;
* `FileDirectory.Tool.scan` — the lexemes of a source file, one to a line;
* `FileDirectory.Tool.listDirectory` — the file sets of a directory image;
* `FileDirectory.Tool.Failure.message` — what a tool says about an input of a given name.

Main results:

* `FileDirectory.Tool.unpack_eq_ok` — packed bytes unpack to the list of their words.
-/

import FileDirectory.Recovery
import FileDirectory.Source.Lexeme
import FileDirectory.Source.WordList

set_option autoImplicit false

namespace FileDirectory.Tool

/-! ### Failures -/

/-- Why a tool refuses its input. -/
inductive Failure where
  /-- The input is not a list of words. -/
  | words (position : Nat) (fault : Source.WordList.Fault)
  /-- The input is not source text. -/
  | source (fault : Source.ScanFault)
  /-- The input is not packed words. -/
  | packing (fault : Packed.Fault)
  /-- The input is not a medium. -/
  | medium (error : MediumError)
  /-- The input does not hold a directory. -/
  | directory (failure : FileDirectory.Failure)
  deriving DecidableEq, Repr

/-- What a tool says about an input of the given name. -/
def Failure.message (input : String) : Failure → String
  | words position fault => s!"{input}: at position {position}: {fault.message}"
  | source fault => s!"{input}: {fault.message}"
  | packing fault => fault.message
  | medium error => error.message
  | directory failure => failure.message

/-! ### Packing -/

/-- Packs a list of words; one without a partner is followed by a zero word. -/
def pack (input : List UInt8) : Except Failure (List UInt8) :=
  match Source.WordList.read input with
  | .error (position, fault) => .error (.words position fault)
  | .ok ws =>
    match Packed.encode (if ws.length % 2 = 0 then ws else ws ++ [0]) with
    | .error fault => .error (.packing fault)
    | .ok bytes => .ok bytes

/-- Unpacks packed words into a list. -/
def unpack (input : List UInt8) : Except Failure (List UInt8) :=
  match Packed.decode input with
  | .error fault => .error (.packing fault)
  | .ok ws => .ok (utf8 (Source.WordList.write ws))

/-- Packed bytes unpack to the list of their words. -/
theorem unpack_eq_ok {input : List UInt8} {ws : List Word} (h : Packed.decode input = .ok ws) :
    unpack input = .ok (utf8 (Source.WordList.write ws)) := by
  simp [unpack, h]

/-! ### Scanning -/

/-- The line of a lexeme. -/
def lexemeLine (l : Source.Lexeme) : String :=
  s!"{l.start}..{l.stop}\t{l.token.text}\n"

/-- Lists the lexemes of a source file, except for the line ends. -/
def scan (input : List UInt8) : Except Failure String :=
  match Source.scan (Utf8.mend input) with
  | .error fault => .error (.source fault)
  | .ok lexemes =>
    .ok (String.join ((lexemes.filter fun l => l.token ≠ .newline).map lexemeLine))

/-! ### Listing a directory -/

/-- The line of a cycle. -/
def cycleLine (c : CycleSummary) : String :=
  s!"  ({c.cycle}) {c.state.text} {c.file.text}\n"

/-- The lines of a file set. -/
def setLines (s : SetInfo) : String :=
  let guarded := if s.guarded then " guarded" else ""
  s!"{s.name.text} {s.fileType.text} range {s.currentRange}/{s.maxRange} cycles {s.cycleCount}" ++
    guarded ++ "\n" ++ String.join (s.cycles.map cycleLine)

/-- The lines of a directory. -/
def directoryLines (d : Directory) : String :=
  String.join (d.catalog.sets.map fun set => setLines set.info) ++
    s!"{d.freeTracks} tracks free\n"

/-- Lists the file sets that a directory image holds, on a pack of the given number of tracks.  The
directory is recovered from a copy; the image stays as it is. -/
def listDirectory (packTracks : Nat) (image : Array UInt8) : Except Failure String :=
  match Medium.ofImage image with
  | .error e => .error (.medium e)
  | .ok medium =>
    match (Directory.recover { packTracks } { medium }).1 with
    | .error f => .error (.directory f)
    | .ok d => .ok (directoryLines d)

end FileDirectory.Tool
