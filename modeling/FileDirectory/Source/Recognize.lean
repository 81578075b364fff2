/-
**Recognizing integers and symbols.**

Source text is a sequence of bytes of which only ASCII has a meaning.  A recognizer looks at the
front of what is left of the text and says what stands there and how far it reaches; it always
takes the longest run.

Main definitions:

* `FileDirectory.Source.isLetter`, `FileDirectory.Source.isDigit`, `FileDirectory.Source.isBlank` —
  the classes of bytes;
* `FileDirectory.Source.literalValue` — the value of an integer;
* `FileDirectory.Source.symbol?` — a symbol, or a complaint about one that is too long.

Main results:

* `FileDirectory.Source.startsSymbol_continues` — what starts a symbol also continues it.
-/

import FileDirectory.Text.Bytes

set_option autoImplicit false

namespace FileDirectory.Source

/-! ### Classes of bytes -/

/-- The letters of ASCII. -/
def isLetter (b : UInt8) : Bool :=
  (0x41 ≤ b && b ≤ 0x5A) || (0x61 ≤ b && b ≤ 0x7A)

/-- The decimal digits. -/
def isDigit (b : UInt8) : Bool := 0x30 ≤ b && b ≤ 0x39

/-- The line feed. -/
def lineFeed : UInt8 := 0x0A

/-- Space, tab, carriage return and line feed are white; other control characters are not. -/
def isBlank (b : UInt8) : Bool :=
  b = 0x20 || b = 0x09 || b = 0x0D || b = lineFeed

/-- A symbol starts with a letter or a dollar sign. -/
def startsSymbol (b : UInt8) : Bool := isLetter b || b = 0x24

/-- A symbol continues with letters, digits, underscores and dollar signs. -/
def continuesSymbol (b : UInt8) : Bool :=
  isLetter b || isDigit b || b = 0x5F || b = 0x24

/-- An integer continues with digits and, where they are allowed, underscores. -/
def continuesInteger (separator : Bool) (b : UInt8) : Bool :=
  isDigit b || (separator && b = 0x5F)

theorem startsSymbol_continues {b : UInt8} (h : startsSymbol b = true) :
    continuesSymbol b = true := by
  simp only [startsSymbol, Bool.or_eq_true] at h
  rcases h with h | h <;> simp [continuesSymbol, h]

/-- The small letter of a capital; every other byte is itself. -/
def foldCase (b : UInt8) : UInt8 :=
  if 0x41 ≤ b ∧ b ≤ 0x5A then b + 0x20 else b

/-! ### Integers -/

/-- The value of the digits of a literal in the given radix, modulo the size of a 64-bit number.
Separators count for nothing, and eight and nine are digits in every radix. -/
def literalValue (radix : UInt64) (literal : List UInt8) : UInt64 :=
  literal.foldl (fun v b => if isDigit b then v * radix + (b - 0x30).toUInt64 else v) 0

/-- The radix of a literal: eight if octal is allowed and the first digit is zero, else ten. -/
def radixOf (octal : Bool) (first : UInt8) : UInt64 :=
  if octal && first = 0x30 then 8 else 10

/-! ### Symbols -/

/-- The number of characters that a symbol may have. -/
def maxSymbolLength : Nat := 12

/-- The bytes of the symbol at the front of a text, none if no symbol starts there. -/
def symbolRun : List UInt8 → List UInt8
  | [] => []
  | b :: bs => if startsSymbol b then b :: bs.takeWhile continuesSymbol else []

/-- The symbol at the front of a text, if there is one: the bytes of one that is too long are the
complaint. -/
def symbol? (text : List UInt8) : Except (List UInt8) (Option (List UInt8)) :=
  match symbolRun text with
  | [] => .ok none
  | run => if maxSymbolLength < run.length then .error run else .ok (some run)

end FileDirectory.Source
