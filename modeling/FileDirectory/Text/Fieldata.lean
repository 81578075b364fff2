/-
**Fieldata text.**

Control records hold their names and keys in Fieldata, six characters of six bits to a word, the
unused places filled with spaces.  The character set has capital letters, digits and punctuation;
everything else is folded onto it on the way in.

Main definitions:

* `FileDirectory.Fieldata.characters`, `FileDirectory.Fieldata.codes` — the characters in the order
  of their codes, and the codes in the order of ASCII;
* `FileDirectory.Fieldata.code`, `FileDirectory.Fieldata.character` — a byte as a code and a code
  as a character;
* `FileDirectory.Fieldata.encode`, `FileDirectory.Fieldata.decode` — a text as a number of words,
  and words as a text without its trailing spaces.

Main results:

* `FileDirectory.Fieldata.code_eq` — the code of a byte is that of the character which stands for it;
* `FileDirectory.Fieldata.code_character` — every code is the code of its character.
-/

import FileDirectory.Text.Coding

set_option autoImplicit false

namespace FileDirectory.Fieldata

/-! ### Characters and codes -/

/-- The characters in the order of their codes. -/
def characters : List Char :=
  ['@', '[', ']', '#', '^', ' ', 'A', 'B', 'C', 'D', 'E', 'F', 'G', 'H', 'I', 'J',
   'K', 'L', 'M', 'N', 'O', 'P', 'Q', 'R', 'S', 'T', 'U', 'V', 'W', 'X', 'Y', 'Z',
   ')', '-', '+', '<', '=', '>', '&', '$', '*', '(', '%', ':', '?', '!', ',', '\\',
   '0', '1', '2', '3', '4', '5', '6', '7', '8', '9', '\'', ';', '/', '.', '"', '_']

/-- The codes of the characters of ASCII in their order. -/
def codes : List Nat :=
  [0o05, 0o05, 0o05, 0o05, 0o05, 0o05, 0o05, 0o05, 0o05, 0o05, 0o05, 0o05, 0o05, 0o05, 0o05, 0o05,
   0o05, 0o05, 0o05, 0o05, 0o05, 0o05, 0o05, 0o05, 0o05, 0o05, 0o05, 0o05, 0o05, 0o05, 0o05, 0o05,
   0o05, 0o55, 0o76, 0o03, 0o47, 0o52, 0o46, 0o72, 0o51, 0o40, 0o50, 0o42, 0o56, 0o41, 0o75, 0o74,
   0o60, 0o61, 0o62, 0o63, 0o64, 0o65, 0o66, 0o67, 0o70, 0o71, 0o53, 0o73, 0o43, 0o44, 0o45, 0o54,
   0o00, 0o06, 0o07, 0o10, 0o11, 0o12, 0o13, 0o14, 0o15, 0o16, 0o17, 0o20, 0o21, 0o22, 0o23, 0o24,
   0o25, 0o26, 0o27, 0o30, 0o31, 0o32, 0o33, 0o34, 0o35, 0o36, 0o37, 0o01, 0o57, 0o02, 0o04, 0o77,
   0o00, 0o06, 0o07, 0o10, 0o11, 0o12, 0o13, 0o14, 0o15, 0o16, 0o17, 0o20, 0o21, 0o22, 0o23, 0o24,
   0o25, 0o26, 0o27, 0o30, 0o31, 0o32, 0o33, 0o34, 0o35, 0o36, 0o37, 0o54, 0o57, 0o55, 0o04, 0o77]

/-- The code of the space. -/
def space : Nat := 0o05

/-- The code of a byte, of which only the low seven bits count. -/
def code (b : UInt8) : Nat :=
  codes.getD (b &&& 0x7F).toNat space

/-- The character of a code, of which only the low six bits count. -/
def character (n : Nat) : Char :=
  characters.getD (n % 64) ' '

@[simp] theorem length_characters : characters.length = 64 := rfl

/-- The character that stands for an ASCII character: a small letter stands as its capital, the
characters that follow the small letters stand as their nearest relatives, and a control character
as a space. -/
def fold (c : Char) : Char :=
  if c.toNat < 0x20 then ' '
  else if 'a' ≤ c ∧ c ≤ 'z' then c.toUpper
  else if c = '\x60' then '@'
  else if c = '\x7b' then '?'
  else if c = '|' then '\\'
  else if c = '\x7d' then '!'
  else if c = '~' then '^'
  else if c = '\x7f' then '_'
  else c

/-- The code of a byte is the place of the character that stands for it. -/
theorem code_eq (b : UInt8) : code b = characters.idxOf (fold (latin1Char (b &&& 0x7F))) := by
  have hall : ∀ n < 128, codes.getD n space = characters.idxOf (fold (Char.ofNat n)) := by
    decide +kernel
  refine hall _ ?_
  have hle : (b &&& 0x7F).toNat ≤ 0x7F := UInt8.le_iff_toNat_le.1 UInt8.and_le_right
  omega

/-- Every code is the code of its character. -/
theorem code_character : ∀ n < 64, code (UInt8.ofNat (character n).toNat) = n := by
  decide +kernel

theorem code_lt (b : UInt8) : code b < 64 := by
  have hall : ∀ n, codes.getD n space < 64 := by
    intro n
    have hcodes : ∀ c ∈ codes, c < 64 := by decide +kernel
    rw [List.getD_eq_getElem?_getD]
    cases hn : codes[n]? with
    | none => decide
    | some c => exact hcodes c (List.mem_of_getElem? hn)
  exact hall _

/-! ### Words -/

/-- Six characters to a word. -/
def coding : Coding := { fields := Field.sixths, code, character, space }

/-- The word of up to six codes, filled with spaces on the right. -/
def word (bs : List UInt8) : Word := coding.word bs

/-- A text as `count` words; what does not fit is lost. -/
def encode (s : String) (count : Nat) : List Word := coding.encode s count

@[simp] theorem length_encode (s : String) (count : Nat) : (encode s count).length = count :=
  coding.length_encode s count

/-- The six characters of a word. -/
def characterList (w : Word) : List Char := coding.characterList w

/-- A run of words as a text without its trailing spaces. -/
def decode (ws : List Word) : String := coding.decode ws

/-- A text as it reads back from a record that holds `count` words of it. -/
def stored (s : String) (count : Nat) : String :=
  decode (encode s count)

end FileDirectory.Fieldata
