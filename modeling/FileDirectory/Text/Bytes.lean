/-
**Text as bytes.**

Source text and word files are sequences of bytes.  A text is the bytes of its characters in UTF-8;
bytes that are not well-formed UTF-8 are mended before they are read as text, each longest piece
that could have begun a character giving way to one replacement character.

Main definitions:

* `FileDirectory.utf8` — the bytes of a text;
* `FileDirectory.latin1` — the text whose characters have the given bytes as code points;
* `FileDirectory.Utf8.mend` — bytes with what is not well-formed replaced.

Main results:

* `FileDirectory.utf8_append` — the bytes of a text are those of its parts;
* `FileDirectory.Utf8.mend_ascii` — bytes below 128 are left alone.
-/

set_option autoImplicit false

namespace FileDirectory

/-! ### Texts and bytes -/

/-- The bytes of a text in UTF-8. -/
def utf8 (s : String) : List UInt8 :=
  s.toList.flatMap String.utf8EncodeChar

@[simp] theorem utf8_append (s t : String) : utf8 (s ++ t) = utf8 s ++ utf8 t := by
  simp [utf8]

/-- The character whose code point is the byte. -/
def latin1Char (b : UInt8) : Char := Char.ofNat b.toNat

/-- The text whose characters have the given bytes as code points. -/
def latin1 (bs : List UInt8) : String :=
  String.ofList (bs.map latin1Char)

namespace Utf8

/-! ### Well-formed sequences -/

/-- The bytes that may follow the first byte of a character of several bytes: how many there are,
and the least and the greatest value of the first of them.  The bounds keep out overlong forms,
surrogates and code points past the last one. -/
def follow? (lead : UInt8) : Option (Nat × UInt8 × UInt8) :=
  if 0xC2 ≤ lead ∧ lead ≤ 0xDF then some (1, 0x80, 0xBF)
  else if lead = 0xE0 then some (2, 0xA0, 0xBF)
  else if lead = 0xED then some (2, 0x80, 0x9F)
  else if 0xE1 ≤ lead ∧ lead ≤ 0xEF then some (2, 0x80, 0xBF)
  else if lead = 0xF0 then some (3, 0x90, 0xBF)
  else if 0xF1 ≤ lead ∧ lead ≤ 0xF3 then some (3, 0x80, 0xBF)
  else if lead = 0xF4 then some (3, 0x80, 0x8F)
  else none

/-- How many of the next `n` bytes continue a character, the first of them lying between `lo` and
`hi` and the others being any continuation bytes. -/
def continued : Nat → UInt8 → UInt8 → List UInt8 → Nat
  | 0, _, _, _ => 0
  | _ + 1, _, _, [] => 0
  | n + 1, lo, hi, b :: bs => if lo ≤ b ∧ b ≤ hi then continued n 0x80 0xBF bs + 1 else 0

/-- The bytes of the replacement character. -/
def replacement : List UInt8 := [0xEF, 0xBF, 0xBD]

/-! ### Mending -/

/-- The bytes with each longest piece that only begins a character, and each byte that begins none,
replaced. -/
def mend : List UInt8 → List UInt8
  | [] => []
  | b :: bs =>
    if b < 0x80 then b :: mend bs
    else
      match follow? b with
      | none => replacement ++ mend bs
      | some (n, lo, hi) =>
        let k := continued n lo hi bs
        if k = n then b :: bs.take n ++ mend (bs.drop n)
        else replacement ++ mend (bs.drop k)
  termination_by bs => bs.length
  decreasing_by
  · exact Nat.lt_succ_self _
  · exact Nat.lt_succ_self _
  · exact Nat.lt_succ_of_le (List.drop_sublist n bs).length_le
  · exact Nat.lt_succ_of_le (List.drop_sublist k bs).length_le

@[simp] theorem mend_nil : mend [] = [] := by simp [mend]

theorem mend_cons_of_lt {b : UInt8} (h : b < 0x80) (bs : List UInt8) :
    mend (b :: bs) = b :: mend bs := by
  rw [mend, if_pos h]

/-- Bytes below 128 are left alone. -/
theorem mend_ascii {bs : List UInt8} (h : ∀ b ∈ bs, b < 0x80) : mend bs = bs := by
  induction bs with
  | nil => simp
  | cons b bs ih =>
    rw [mend_cons_of_lt (h b (by simp)), ih fun c hc => h c (by simp [hc])]

end Utf8

end FileDirectory
