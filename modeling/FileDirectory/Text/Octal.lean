/-
**Octal numerals.**

Words are written in octal: in as many digits as the value needs, or in a field of fixed width
padded with zeros.  A mark before the digits may tell that the numeral is octal.

Main definitions:

* `FileDirectory.octal` — the shortest octal numeral of a number;
* `FileDirectory.octalDigits`, `FileDirectory.octalField` — the low digits of a number, most
  significant first, in a field of fixed width.

Main results:

* `FileDirectory.length_octalDigits` — a field is exactly as wide as asked.
-/

set_option autoImplicit false

namespace FileDirectory

/-- The shortest octal numeral of `n`. -/
def octal (n : Nat) : String :=
  String.ofList (Nat.toDigits 8 n)

/-- The low `width` octal digits of `n`, most significant first. -/
def octalDigits : Nat → Nat → List Char
  | 0, _ => []
  | width + 1, n => octalDigits width (n / 8) ++ [Nat.digitChar (n % 8)]

@[simp] theorem octalDigits_zero (n : Nat) : octalDigits 0 n = [] := rfl

theorem octalDigits_succ (width n : Nat) :
    octalDigits (width + 1) n = octalDigits width (n / 8) ++ [Nat.digitChar (n % 8)] := rfl

@[simp] theorem length_octalDigits (width n : Nat) : (octalDigits width n).length = width := by
  induction width generalizing n with
  | zero => rfl
  | succ width ih => simp [octalDigits_succ, ih]

/-- The octal numeral of `n` in a field of `width` digits, padded with zeros on the left. -/
def octalField (width n : Nat) : String :=
  String.ofList (octalDigits width n)

/-- What stands before a numeral to tell that it is octal. -/
def octalMark : String := "0o"

/-- The octal numeral of `n` with the mark, padded with zeros to `width` characters in all. -/
def markedOctal (width n : Nat) : String :=
  let digits := Nat.toDigits 8 n
  octalMark ++ String.ofList (digits.leftpad (width - octalMark.length) '0')

end FileDirectory
