/-
**Lexemes of source text.**

Source text is a sequence of symbols, integers, punctuation marks and line ends.  Spaces, tabs and
carriage returns separate lexemes, and a period that is not part of a number starts a comment that
runs to the end of the line.  An integer with a leading zero is octal and may contain underscores.

Main definitions:

* `FileDirectory.Source.Token`, `FileDirectory.Source.Lexeme` — a lexeme and where it stands;
* `FileDirectory.Source.scan` — the lexemes of a text.

Main results:

* `FileDirectory.Source.scanFrom_nil` and its companions — one equation for each kind of byte that
  can come next.
-/

import FileDirectory.Source.Cursor
import FileDirectory.Text.Octal
import FileDirectory.Text.Quoted

set_option autoImplicit false

namespace FileDirectory.Source

/-! ### Lexemes -/

/-- What a lexeme is. -/
inductive Token where
  | symbol (name : String)
  | integer (value : UInt64)
  | punctuation (mark : Char)
  | newline
  deriving DecidableEq, Repr

/-- The text of a token. -/
def Token.text : Token → String
  | .symbol name => s!"symbol {name}"
  | .integer value => s!"integer {value} (octal {octal value.toNat})"
  | .punctuation mark => s!"punctuation {quoteChar mark}"
  | .newline => "newline"

/-- A token with the place where it starts and the place just past it. -/
structure Lexeme where
  token : Token
  start : Nat
  stop : Nat
  deriving DecidableEq, Repr

/-- Where scanning stopped, and why. -/
structure ScanFault where
  position : Nat
  fault : Fault
  deriving DecidableEq, Repr

/-- The text of a scanning fault. -/
def ScanFault.message (e : ScanFault) : String :=
  s!"at position {e.position}: {e.fault.message}"

/-! ### Scanning -/

/-- The lexemes of what is left of a text, of which the next byte stands at `pos`. -/
def scanFrom (pos : Nat) : List UInt8 → Except ScanFault (List Lexeme)
  | [] => .ok []
  | b :: bs =>
    if b = lineFeed then
      (⟨.newline, pos, pos + 1⟩ :: ·) <$> scanFrom (pos + 1) bs
    else if isBlank b then
      scanFrom (pos + 1) bs
    else if startsSymbol b then
      let run := b :: bs.takeWhile continuesSymbol
      if maxSymbolLength < run.length then .error ⟨pos, .symbolTooLong (latin1 run)⟩
      else
        (⟨.symbol (latin1 run), pos, pos + run.length⟩ :: ·) <$>
          scanFrom (pos + run.length) (bs.dropWhile continuesSymbol)
    else if isDigit b then
      let literal := b :: bs.takeWhile (continuesInteger true)
      (⟨.integer (literalValue (radixOf true b) literal), pos, pos + literal.length⟩ :: ·) <$>
        scanFrom (pos + literal.length) (bs.dropWhile (continuesInteger true))
    else if b = 0x2E then
      let comment := b :: bs.takeWhile (· ≠ lineFeed)
      scanFrom (pos + comment.length) (bs.dropWhile (· ≠ lineFeed))
    else
      (⟨.punctuation (latin1Char b), pos, pos + 1⟩ :: ·) <$> scanFrom (pos + 1) bs
  termination_by bs => bs.length
  decreasing_by
    all_goals
      have hsymbol := (List.dropWhile_sublist continuesSymbol (l := bs)).length_le
      have hinteger := (List.dropWhile_sublist (continuesInteger true) (l := bs)).length_le
      have hcomment := (List.dropWhile_sublist (fun b => decide (b ≠ lineFeed)) (l := bs)).length_le
      simp only [List.length_cons]
      omega

/-- The lexemes of a text. -/
def scan (text : List UInt8) : Except ScanFault (List Lexeme) := scanFrom 0 text

@[simp] theorem scanFrom_nil (pos : Nat) : scanFrom pos [] = .ok [] := by rw [scanFrom]

theorem scanFrom_lineFeed (pos : Nat) (bs : List UInt8) :
    scanFrom pos (lineFeed :: bs) =
      (⟨.newline, pos, pos + 1⟩ :: ·) <$> scanFrom (pos + 1) bs := by
  rw [scanFrom, if_pos rfl]

theorem scanFrom_blank (pos : Nat) {b : UInt8} (bs : List UInt8) (hb : isBlank b = true)
    (hline : b ≠ lineFeed) : scanFrom pos (b :: bs) = scanFrom (pos + 1) bs := by
  rw [scanFrom, if_neg hline, if_pos hb]

end FileDirectory.Source
