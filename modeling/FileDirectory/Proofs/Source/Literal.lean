/-
**What a literal stands for.**

A literal is a run of digits and underscores that begins with a digit; it is octal if that digit is a
zero.  The number that it stands for has no bound, while a recognizer counts modulo the size of a
64-bit number, so that the value of a literal is its number reduced.

Main definitions:

* `FileDirectory.Source.exactValue` — the number that the digits of a literal stand for in a radix;
* `FileDirectory.Source.number` — the number that a literal stands for;
* `FileDirectory.Source.IsLiteral` — the well-formed literals.

Main results:

* `FileDirectory.Source.toNat_literalValue` — the value of a literal is its number modulo `2 ^ 64`;
* `FileDirectory.Source.takeWhile_run`, `FileDirectory.Source.dropWhile_run` — a run that cannot go on
  is the longest one.
-/

import FileDirectory.Source.Recognize
import Mathlib.Data.List.Induction
import Mathlib.Data.List.TakeWhile
import Mathlib.Data.Nat.Digits.Defs

set_option autoImplicit false

namespace FileDirectory.Source

/-! ### Classes of bytes -/

theorem isDigit_iff {b : UInt8} : isDigit b = true ↔ 0x30 ≤ b.toNat ∧ b.toNat ≤ 0x39 := by
  simp [isDigit, UInt8.le_iff_toNat_le]

theorem isLetter_iff {b : UInt8} : isLetter b = true ↔
    0x41 ≤ b.toNat ∧ b.toNat ≤ 0x5A ∨ 0x61 ≤ b.toNat ∧ b.toNat ≤ 0x7A := by
  simp [isLetter, UInt8.le_iff_toNat_le]

theorem isBlank_iff {b : UInt8} :
    isBlank b = true ↔ b = 0x20 ∨ b = 0x09 ∨ b = 0x0D ∨ b = lineFeed := by
  simp [isBlank, or_assoc]

/-! ### Longest runs -/

section Runs

variable {p : UInt8 → Bool} {run rest : List UInt8}

/-- A run that cannot be extended is the longest one. -/
theorem takeWhile_run (hrun : ∀ b ∈ run, p b = true) (hrest : ∀ b ∈ rest.head?, p b = false) :
    (run ++ rest).takeWhile p = run := by
  have hstop : rest.takeWhile p = [] := by
    cases rest with
    | nil => rfl
    | cons b bs => exact List.takeWhile_cons_of_neg (by simp [hrest b rfl])
  rw [List.takeWhile_append_of_pos hrun, hstop, List.append_nil]

theorem dropWhile_run (hrun : ∀ b ∈ run, p b = true) (hrest : ∀ b ∈ rest.head?, p b = false) :
    (run ++ rest).dropWhile p = rest := by
  rw [List.dropWhile_append_of_pos hrun]
  cases rest with
  | nil => rfl
  | cons b bs => exact List.dropWhile_cons_of_neg (by simp [hrest b rfl])

/-- What follows the longest run begins with a byte that does not belong to it. -/
theorem head?_dropWhile (p : UInt8 → Bool) (bs : List UInt8) :
    ∀ b ∈ (bs.dropWhile p).head?, p b = false := by
  intro b hb
  have hnot := List.head?_dropWhile_not p bs
  rw [Option.mem_def.1 hb] at hnot
  exact hnot

/-- A byte of one kind, and those of its kind that follow it. -/
theorem exists_run {b : UInt8} (hb : p b = true) (bs : List UInt8) :
    b :: bs = b :: bs.takeWhile p ++ bs.dropWhile p ∧ (∀ c ∈ b :: bs.takeWhile p, p c = true) ∧
      ∀ c ∈ (bs.dropWhile p).head?, p c = false :=
  ⟨by simp, List.forall_mem_cons.2 ⟨hb, fun _ hc => List.mem_takeWhile_imp hc⟩,
    head?_dropWhile p bs⟩

end Runs

/-! ### Numbers -/

/-- The digits of a literal, most significant first. -/
def digitsOf (literal : List UInt8) : List Nat :=
  (literal.filter isDigit).map fun b => b.toNat - 0x30

/-- The number that the digits of a literal stand for in a radix, each weighted by a power of the
radix. -/
def exactValue (radix : Nat) (literal : List UInt8) : Nat :=
  Nat.ofDigits radix (digitsOf literal).reverse

/-- The radix in which a literal is written. -/
def writtenRadix (literal : List UInt8) : Nat := if literal.head? = some 0x30 then 8 else 10

/-- The number that a literal stands for. -/
def number (literal : List UInt8) : Nat := exactValue (writtenRadix literal) literal

/-- One digit more. -/
theorem exactValue_append_digit (radix : Nat) (literal : List UInt8) {b : UInt8}
    (hb : isDigit b = true) :
    exactValue radix (literal ++ [b]) = exactValue radix literal * radix + (b.toNat - 0x30) := by
  rw [exactValue, digitsOf, List.filter_append, List.filter_cons_of_pos hb, List.filter_nil,
    List.map_append, List.map_singleton, List.reverse_concat, Nat.ofDigits_cons, Nat.add_comm,
    Nat.mul_comm]
  rfl

/-- A separator counts for nothing. -/
theorem exactValue_append_separator (radix : Nat) (literal : List UInt8) {b : UInt8}
    (hb : isDigit b = false) : exactValue radix (literal ++ [b]) = exactValue radix literal := by
  rw [exactValue, digitsOf, List.filter_append, List.filter_cons_of_neg (by simp [hb]),
    List.filter_nil, List.append_nil]
  rfl

theorem toNat_digit {b : UInt8} (hb : isDigit b = true) :
    (b - 0x30).toUInt64.toNat = b.toNat - 0x30 := by
  have hle : (0x30 : UInt8) ≤ b := UInt8.le_iff_toNat_le.2 (isDigit_iff.1 hb).1
  rw [UInt8.toNat_toUInt64, UInt8.toNat_sub_of_le _ _ hle]
  rfl

/-- **The value of a literal is its number modulo the size of a 64-bit number.** -/
theorem toNat_literalValue (radix : UInt64) (literal : List UInt8) :
    (literalValue radix literal).toNat = exactValue radix.toNat literal % 2 ^ 64 := by
  -- a literal grows at its end, where the recognizer reads on
  induction literal using List.reverseRecOn with
  | nil => rfl
  | append_singleton literal b ih =>
      rw [literalValue, List.foldl_append, List.foldl_cons, List.foldl_nil, ← literalValue]
      cases hb : isDigit b with
      | false =>
          rw [if_neg Bool.false_ne_true, exactValue_append_separator _ _ hb, ih]
      | true =>
          rw [if_pos rfl, exactValue_append_digit _ _ hb, UInt64.toNat_add, UInt64.toNat_mul, ih,
            toNat_digit hb, Nat.mod_mul_mod, Nat.mod_add_mod]

theorem toNat_radixOf (b : UInt8) (bs : List UInt8) :
    (radixOf true b).toNat = writtenRadix (b :: bs) := by
  rw [radixOf, writtenRadix, Bool.true_and, List.head?_cons]
  by_cases hb : b = 0x30
  · rw [if_pos (decide_eq_true hb), if_pos (congrArg some hb)]
    rfl
  · rw [if_neg (by simp [hb]), if_neg (fun heq => hb (Option.some.inj heq))]
    rfl

/-- The value of a literal in the radix in which it is written. -/
theorem toNat_value (b : UInt8) (bs : List UInt8) :
    (literalValue (radixOf true b) (b :: bs)).toNat = number (b :: bs) % 2 ^ 64 := by
  rw [toNat_literalValue, toNat_radixOf b bs, number]

/-! ### Well-formed literals -/

/-- A literal: a digit, then digits and underscores; without eight and nine if it is octal. -/
structure IsLiteral (run : List UInt8) : Prop where
  first : ∃ b ∈ run.head?, isDigit b = true
  rest : ∀ b ∈ run, isDigit b = true ∨ b = 0x5F
  octal : run.head? = some 0x30 → ∀ b ∈ run, b ≠ 0x38 ∧ b ≠ 0x39

end FileDirectory.Source
