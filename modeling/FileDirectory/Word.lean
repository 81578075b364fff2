/-
**Thirty-six-bit words.**

The machine word of the executive.  Every control record and every block moved to or from a disk
or a tape is made of these words.

Main definitions:

* `FileDirectory.Word` — a word; equality is bitwise, so the two zeros of ones-complement
  arithmetic differ;
* `FileDirectory.Word.maxValue` — the largest value that a word holds;
* `FileDirectory.Word.ofNat?` — the word of a number that fits;
* `FileDirectory.Word.text` — the twelve octal digits of a word.

Main results:

* `FileDirectory.Word.ofNat?_eq_ok_iff` — exactly the numbers up to `maxValue` fit.
-/

import FileDirectory.Text.Octal

set_option autoImplicit false

namespace FileDirectory

/-- A machine word of thirty-six bits. -/
abbrev Word := BitVec 36

namespace Word

/-! ### Numbers as words -/

/-- The largest value that a word holds, all bits set. -/
def maxValue : Nat := 0o777777777777

/-- The word that holds the low thirty-six bits of `n`. -/
def ofNat (n : Nat) : Word := BitVec.ofNat 36 n

@[simp] theorem ofNat_toNat (w : Word) : ofNat w.toNat = w := by simp [ofNat]

/-- Why a number is not the value of a word. -/
inductive Misfit where
  /-- The number needs more than thirty-six bits. -/
  | tooLarge
  deriving DecidableEq, Repr

/-- The text of a misfit. -/
def Misfit.message : Misfit → String
  | .tooLarge => "value is too large for a 36-bit word"

/-- The word whose value is `n`, if it has one. -/
def ofNat? (n : Nat) : Except Misfit Word :=
  if n ≤ maxValue then .ok (ofNat n) else .error .tooLarge

theorem ofNat?_eq_ok_iff {n : Nat} {w : Word} : ofNat? n = .ok w ↔ w.toNat = n := by
  have hw := w.isLt
  unfold ofNat? maxValue
  split
  · simp only [Except.ok.injEq, BitVec.toNat_eq, ofNat, BitVec.toNat_ofNat]
    omega
  · simp only [reduceCtorEq, false_iff]
    omega

/-! ### Written form -/

/-- The twelve octal digits of a word. -/
def text (w : Word) : String := octalField 12 w.toNat

/-- The long written form of a word, which names its type. -/
def description (w : Word) : String :=
  "Word36\x7bbits: " ++ octalMark ++ w.text ++ "\x7d"

end Word

end FileDirectory
