/-
**Signed words.**

The machine represents signed numbers in ones-complement form: the negative of a word is its
bitwise complement, and there are two zeros, one with all bits clear and one with all bits set.

Main definitions:

* `FileDirectory.Word.signed` — the signed number that a word stands for;
* `FileDirectory.Word.ofSigned` — the word of a signed number, whose magnitude keeps its low
  thirty-five bits;
* `FileDirectory.Word.negate`, `FileDirectory.Word.add` — arithmetic;
* `FileDirectory.Word.extend` — a narrow field as a whole word of the same sign.

Main results:

* `FileDirectory.Word.negate_negate` — negation undoes itself;
* `FileDirectory.Word.add_negativeZero` — two negative zeros add up to negative zero.
-/

import FileDirectory.Word

set_option autoImplicit false

namespace FileDirectory

/-- The sign of a number; both zeros have the sign of zero. -/
inductive Sign where
  | negative
  | zero
  | positive
  deriving DecidableEq, Repr

namespace Word

/-! ### The two zeros -/

/-- The zero with all bits clear. -/
def positiveZero : Word := 0

/-- The zero with all bits set. -/
def negativeZero : Word := BitVec.allOnes 36

/-- Whether the sign bit is set. -/
def isNegative (w : Word) : Bool := w.msb

/-- Whether the word is one of the two zeros. -/
def isZero (w : Word) : Bool := w = positiveZero || w = negativeZero

/-- The sign of a word. -/
def sign (w : Word) : Sign :=
  if w.isZero then .zero else if w.isNegative then .negative else .positive

/-- The word with negative zero made positive. -/
def dropNegativeZero (w : Word) : Word :=
  if w = negativeZero then positiveZero else w

/-! ### Numbers -/

/-- The negative of a word is its complement. -/
def negate (w : Word) : Word := ~~~w

@[simp] theorem negate_negate (w : Word) : w.negate.negate = w := by simp [negate]

/-- The signed number that a word stands for. -/
def signed (w : Word) : Int :=
  if w.isNegative then -(w.negate.toNat : Int) else w.toNat

/-- The word of a signed number.  A magnitude of more than thirty-five bits loses its high bits. -/
def ofSigned (n : Int) : Word :=
  let magnitude := ofNat (n.natAbs % 0o400000000000)
  if n < 0 then magnitude.negate else magnitude

/-- The sum of two words.  Two negative zeros add up to negative zero; every other sum is that of
the signed numbers. -/
def add (a b : Word) : Word :=
  if a = negativeZero ∧ b = negativeZero then negativeZero else ofSigned (a.signed + b.signed)

@[simp] theorem add_negativeZero : negativeZero.add negativeZero = negativeZero := by
  simp [add]

/-- The low `width` bits of `n`, the highest of them copied into the rest of the word. -/
def extend (width n : Nat) : Word :=
  (BitVec.ofNat width n).signExtend 36

end Word

end FileDirectory
