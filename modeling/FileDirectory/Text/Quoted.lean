/-
**Quoted text.**

Messages quote the characters and the texts that they complain about.  A quoted text stands between
quotes, with a backslash before a quote of the same kind and before a backslash; control characters
have their usual short escapes, and every other character that would not be seen is written as its
code point in braces.

Main definitions:

* `FileDirectory.Quoted.escape` — how a character is written between quotes;
* `FileDirectory.quoteText` — a text between double quotes;
* `FileDirectory.quoteChar` — a character between single quotes.

Main results:

* `FileDirectory.Quoted.escape_of_plain` — a printable character that is neither a quote nor a
  backslash stands for itself.
-/

import FileDirectory.Text.Printable

set_option autoImplicit false

namespace FileDirectory

namespace Quoted

/-- The code point of a character in braces, in the fewest lower-case hexadecimal digits. -/
def codePoint (c : Char) : List Char :=
  ['\\', 'u', '\x7b'] ++ Nat.toDigits 16 c.toNat ++ ['\x7d']

/-- How the character `c` is written between two quotes `q`. -/
def escape (q c : Char) : List Char :=
  if c = '\x00' then ['\\', '0']
  else if c = '\t' then ['\\', 't']
  else if c = '\r' then ['\\', 'r']
  else if c = '\n' then ['\\', 'n']
  else if c = '\\' ∨ c = q then ['\\', c]
  else if isPrintable c then [c]
  else codePoint c

theorem escape_of_plain {q c : Char} (hprint : isPrintable c = true) (hslash : c ≠ '\\')
    (hquote : c ≠ q) : escape q c = [c] := by
  have hsmall : ∀ d : Char, isPrintable d = false → c ≠ d := by
    rintro d hd rfl
    simp [hprint] at hd
  have h₀ := hsmall '\x00' (by decide +kernel)
  have h₁ := hsmall '\t' (by decide +kernel)
  have h₂ := hsmall '\r' (by decide +kernel)
  have h₃ := hsmall '\n' (by decide +kernel)
  simp [escape, h₀, h₁, h₂, h₃, hslash, hquote, hprint]

end Quoted

/-- A text between double quotes. -/
def quoteText (s : String) : String :=
  String.ofList ('"' :: s.toList.flatMap (Quoted.escape '"') ++ ['"'])

/-- A character between single quotes. -/
def quoteChar (c : Char) : String :=
  String.ofList ('\'' :: Quoted.escape '\'' c ++ ['\''])

end FileDirectory
