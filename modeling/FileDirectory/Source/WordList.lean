/-
**Lists of words in text.**

A word file in text holds words as integers separated by white space.  An integer with a leading
zero is octal and must not use the digits eight and nine; underscores may stand anywhere after the
first digit.

Main definitions:

* `FileDirectory.Source.WordList.read` — the words of a text;
* `FileDirectory.Source.WordList.write` — words as text, one to a line, in octal;
* `FileDirectory.Source.WordList.Fault` — why a text is not a list of words.

Main results:

* `FileDirectory.Source.WordList.readFrom_nil` — an empty text holds no words.
-/

import FileDirectory.Source.Recognize
import FileDirectory.Text.Quoted
import FileDirectory.Word

set_option autoImplicit false

namespace FileDirectory.Source.WordList

/-! ### Faults -/

/-- What is wrong with an entry of a list of words. -/
inductive Fault where
  /-- The entry does not start with a digit. -/
  | expectedNumber
  /-- The entry is octal and has a digit eight or nine. -/
  | notOctal (literal : String)
  /-- Something other than white space follows the number. -/
  | unexpected (c : Char)
  /-- The number does not fit in a word. -/
  | tooLarge (value : UInt64)
  deriving DecidableEq, Repr

/-- The text of a fault. -/
def Fault.message : Fault → String
  | .expectedNumber => "expected a number"
  | .notOctal literal => s!"{literal} is not an octal number"
  | .unexpected c => s!"unexpected character {quoteChar c} after a number"
  | .tooLarge value => s!"{octal value.toNat} does not fit in 36 bits"

/-! ### Reading -/

/-- The digits that an octal literal must not use. -/
def isEightOrNine (b : UInt8) : Bool := b = 0x38 || b = 0x39

/-- The word of a literal that starts with the given byte and is followed by the given text. -/
def entry (first : UInt8) (literal after : List UInt8) : Except Fault Word :=
  if first = 0x30 ∧ literal.any isEightOrNine then .error (.notOctal (latin1 literal))
  else
    match after.head? with
    | some b =>
      if isBlank b then fit (literalValue (radixOf true first) literal)
      else .error (.unexpected (latin1Char b))
    | none => fit (literalValue (radixOf true first) literal)
where
  /-- The word of a value that fits. -/
  fit (value : UInt64) : Except Fault Word :=
    if value.toNat ≤ Word.maxValue then .ok (Word.ofNat value.toNat) else .error (.tooLarge value)

/-- The words of what is left of a text, of which the next byte stands at `pos`; or the place of the
first entry that is not a word, and what is wrong with it. -/
def readFrom (pos : Nat) : List UInt8 → Except (Nat × Fault) (List Word)
  | [] => .ok []
  | b :: bs =>
    if isBlank b then readFrom (pos + 1) bs
    else if isDigit b then
      let literal := b :: bs.takeWhile (continuesInteger true)
      let after := bs.dropWhile (continuesInteger true)
      match entry b literal after with
      | .error e => .error (pos, e)
      | .ok w => (w :: ·) <$> readFrom (pos + literal.length) after
    else .error (pos, .expectedNumber)
  termination_by bs => bs.length
  decreasing_by
    all_goals
      have hinteger := (List.dropWhile_sublist (continuesInteger true) (l := bs)).length_le
      simp only [List.length_cons]
      omega

/-- The words of a text. -/
def read (text : List UInt8) : Except (Nat × Fault) (List Word) := readFrom 0 text

@[simp] theorem readFrom_nil (pos : Nat) : readFrom pos [] = .ok [] := by rw [readFrom]

/-! ### Writing -/

/-- Words as text, each a zero and twelve octal digits on a line of its own. -/
def write (ws : List Word) : String :=
  String.join (ws.map fun w => "0" ++ w.text ++ "\n")

end FileDirectory.Source.WordList
