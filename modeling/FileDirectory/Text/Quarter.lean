/-
**Text in quarters.**

Outside control records a word holds four characters of nine bits each, of which eight are used;
the unused places are filled with spaces.

Main definitions:

* `FileDirectory.Quarter.encode`, `FileDirectory.Quarter.decode` — a text as a number of words, and
  words as a text without its trailing spaces.

Main results:

* `FileDirectory.Quarter.length_encode` — a text takes as many words as it is given.
-/

import FileDirectory.Text.Coding

set_option autoImplicit false

namespace FileDirectory.Quarter

/-- Four bytes to a word; of a quarter only the low eight bits count. -/
def coding : Coding where
  fields := Field.quarters
  code := UInt8.toNat
  character n := latin1Char (UInt8.ofNat n)
  space := 0x20

/-- The word of up to four bytes, filled with spaces on the right. -/
def word (bs : List UInt8) : Word := coding.word bs

/-- A text as `count` words; what does not fit is lost. -/
def encode (s : String) (count : Nat) : List Word := coding.encode s count

@[simp] theorem length_encode (s : String) (count : Nat) : (encode s count).length = count :=
  coding.length_encode s count

/-- The four characters of a word. -/
def characterList (w : Word) : List Char := coding.characterList w

/-- A run of words as a text without its trailing spaces. -/
def decode (ws : List Word) : String := coding.decode ws

end FileDirectory.Quarter
