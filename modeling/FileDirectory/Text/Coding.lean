/-
**Text in words.**

A word is divided into fields, each of which holds the code of one character.  A text takes as many
words as it is given: what does not fit is lost, and the unused places are filled with spaces, which
are dropped again when the words are read.

Main definitions:

* `FileDirectory.Coding` — the fields of a word and the codes of characters;
* `FileDirectory.Coding.encode`, `FileDirectory.Coding.decode` — a text as a number of words, and
  words as a text without its trailing spaces.

Main results:

* `FileDirectory.Coding.length_encode` — a text takes as many words as it is given.
-/

import FileDirectory.Text.Bytes
import FileDirectory.Word.Field

set_option autoImplicit false

namespace FileDirectory

/-- A text without its trailing spaces. -/
def trimSpaces (cs : List Char) : List Char :=
  (cs.reverse.dropWhile (· = ' ')).reverse

/-- A way of writing text in words. -/
structure Coding where
  /-- The fields of a word that hold characters, in the order of the text. -/
  fields : List Field
  /-- The code of a byte. -/
  code : UInt8 → Nat
  /-- The character of a code. -/
  character : Nat → Char
  /-- The code of the space. -/
  space : Nat

namespace Coding

variable (k : Coding)

/-- The word of as many bytes as it has fields, filled with spaces on the right. -/
def word (bs : List UInt8) : Word :=
  Word.join k.fields
    ((bs.take k.fields.length).map k.code ++ List.replicate k.fields.length k.space)

/-- The first `count` words of a run of bytes. -/
def words : Nat → List UInt8 → List Word
  | 0, _ => []
  | count + 1, bs => k.word bs :: words count (bs.drop k.fields.length)

@[simp] theorem length_words (count : Nat) (bs : List UInt8) :
    (k.words count bs).length = count := by
  induction count generalizing bs with
  | zero => rfl
  | succ count ih => simp [words, ih]

/-- A text as `count` words; what does not fit is lost. -/
def encode (s : String) (count : Nat) : List Word :=
  k.words count (utf8 s)

@[simp] theorem length_encode (s : String) (count : Nat) : (k.encode s count).length = count := by
  simp [encode]

/-- The characters of a word. -/
def characterList (w : Word) : List Char :=
  (w.split k.fields).map k.character

/-- A run of words as a text without its trailing spaces. -/
def decode (ws : List Word) : String :=
  String.ofList (trimSpaces (ws.flatMap k.characterList))

end Coding

end FileDirectory
