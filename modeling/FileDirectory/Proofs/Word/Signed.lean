/-
**Sums of signed words.**

The signed number of a word is the value of the word modulo `2 ^ 36 - 1`, so adding signed numbers is
adding values and adding the carry back in at the low end.  The two agree as long as the sum has a
magnitude of at most thirty-five bits, apart from the two zeros.  A greater magnitude loses its high
bits, and the sign of what is left is that of the sum, even if nothing is left.

Main definitions:

* `FileDirectory.Word.endAround` — the binary sum of two words with the carry added back in.

Main results:

* `FileDirectory.Word.signed_modEq` — the signed number of a word and its value;
* `FileDirectory.Word.signed_ofSigned` — numbers of at most thirty-five bits survive as words;
* `FileDirectory.Word.signed_endAround` — the signed number of an end-around sum;
* `FileDirectory.Word.add_eq_endAround` — addition is end-around addition;
* `FileDirectory.Word.add_isZero_iff` — which sums are which zero.
-/

import FileDirectory.Proofs.Word.Join
import FileDirectory.Word.Signed
import Mathlib.Data.Int.ModEq

set_option autoImplicit false

namespace FileDirectory.Word

/-! ### Signed numbers -/

theorem isNegative_eq (w : Word) : w.isNegative = decide (2 ^ 35 ≤ w.toNat) :=
  BitVec.msb_eq_decide w

theorem toNat_negate (w : Word) : w.negate.toNat = 2 ^ 36 - 1 - w.toNat := by
  rw [negate, BitVec.toNat_not]

theorem toNat_positiveZero : positiveZero.toNat = 0 := rfl

theorem toNat_negativeZero : negativeZero.toNat = 2 ^ 36 - 1 := rfl

theorem eq_positiveZero_iff {w : Word} : w = positiveZero ↔ w.toNat = 0 := by
  rw [← BitVec.toNat_inj, toNat_positiveZero]

theorem eq_negativeZero_iff {w : Word} : w = negativeZero ↔ w.toNat = 2 ^ 36 - 1 := by
  rw [← BitVec.toNat_inj, toNat_negativeZero]

theorem isZero_iff {w : Word} : w.isZero = true ↔ w = positiveZero ∨ w = negativeZero := by
  simp [isZero]

theorem signed_of_lt {w : Word} (h : w.toNat < 2 ^ 35) : w.signed = w.toNat := by
  have hsign : ¬w.isNegative = true := by rw [isNegative_eq, decide_eq_true_eq]; omega
  rw [signed, if_neg hsign]

theorem signed_of_le {w : Word} (h : 2 ^ 35 ≤ w.toNat) : w.signed = w.toNat - (2 ^ 36 - 1) := by
  have hlt := w.isLt
  have hsign : w.isNegative = true := by rwa [isNegative_eq, decide_eq_true_eq]
  rw [signed, if_pos hsign, toNat_negate]
  omega

/-- The signed number of a word has at most thirty-five bits. -/
theorem natAbs_signed_lt (w : Word) : w.signed.natAbs < 2 ^ 35 := by
  have hlt := w.isLt
  obtain h | h := Nat.lt_or_ge w.toNat (2 ^ 35)
  · rw [signed_of_lt h]
    exact h
  · rw [signed_of_le h]
    omega

/-- **The signed number of a word** is its value modulo `2 ^ 36 - 1`. -/
theorem signed_modEq (w : Word) : w.signed ≡ w.toNat [ZMOD 2 ^ 36 - 1] := by
  obtain h | h := Nat.lt_or_ge w.toNat (2 ^ 35)
  · rw [signed_of_lt h]
  · rw [signed_of_le h]
    exact Int.modEq_iff_dvd.2 ⟨1, by omega⟩

/-- Small numbers that are equal modulo `2 ^ 36 - 1` are equal. -/
theorem eq_of_modEq {m n : Int} (h : m ≡ n [ZMOD 2 ^ 36 - 1]) (hm : m.natAbs < 2 ^ 35)
    (hn : n.natAbs < 2 ^ 35) : m = n := by
  unfold Int.ModEq at h
  omega

/-- A word other than the two zeros is determined by its signed number. -/
theorem eq_of_signed_eq {v w : Word} (h : v.signed = w.signed) (hv : v ≠ negativeZero)
    (hw : w ≠ negativeZero) : v = w := by
  rw [Ne, eq_negativeZero_iff] at hv hw
  have hvlt := v.isLt
  have hwlt := w.isLt
  have hmod := ((signed_modEq v).symm.trans (h ▸ signed_modEq w))
  refine BitVec.eq_of_toNat_eq ?_
  unfold Int.ModEq at hmod
  omega

theorem signed_eq_zero_iff {w : Word} : w.signed = 0 ↔ w = positiveZero ∨ w = negativeZero := by
  have hlt := w.isLt
  rw [eq_positiveZero_iff, eq_negativeZero_iff]
  obtain h | h := Nat.lt_or_ge w.toNat (2 ^ 35)
  · rw [signed_of_lt h]
    omega
  · rw [signed_of_le h]
    omega

/-! ### Words of signed numbers -/

section OfSigned

variable {n : Int}

theorem toNat_ofSigned_of_nonneg (h : 0 ≤ n) : (ofSigned n).toNat = n.natAbs % 2 ^ 35 := by
  rw [ofSigned, if_neg (Int.not_lt.2 h), toNat_ofNat]
  omega

theorem toNat_ofSigned_of_neg (h : n < 0) :
    (ofSigned n).toNat = 2 ^ 36 - 1 - n.natAbs % 2 ^ 35 := by
  rw [ofSigned, if_pos h, toNat_negate, toNat_ofNat]
  omega

/-- Numbers of at most thirty-five bits survive as words. -/
theorem signed_ofSigned (h : n.natAbs < 2 ^ 35) : (ofSigned n).signed = n := by
  obtain hneg | hpos := Int.lt_or_le n 0
  · have hword := toNat_ofSigned_of_neg hneg
    rw [signed_of_le (by omega)]
    omega
  · have hword := toNat_ofSigned_of_nonneg hpos
    rw [signed_of_lt (by omega)]
    omega

/-- A number becomes positive zero if it is not negative and its low bits are clear. -/
theorem ofSigned_eq_positiveZero_iff : ofSigned n = positiveZero ↔ 0 ≤ n ∧ n.natAbs % 2 ^ 35 = 0 := by
  rw [eq_positiveZero_iff]
  obtain hneg | hpos := Int.lt_or_le n 0
  · rw [toNat_ofSigned_of_neg hneg]
    omega
  · rw [toNat_ofSigned_of_nonneg hpos]
    omega

/-- A number becomes negative zero if it is negative and its low bits are clear. -/
theorem ofSigned_eq_negativeZero_iff : ofSigned n = negativeZero ↔ n < 0 ∧ n.natAbs % 2 ^ 35 = 0 := by
  rw [eq_negativeZero_iff]
  obtain hneg | hpos := Int.lt_or_le n 0
  · rw [toNat_ofSigned_of_neg hneg]
    omega
  · rw [toNat_ofSigned_of_nonneg hpos]
    omega

end OfSigned

/-! ### End-around sums -/

/-- The binary sum of two words, with the carry out of the highest bit added back in. -/
def endAround (a b : Word) : Word :=
  a + b + BitVec.ofNat 36 (BitVec.carry 36 a b false).toNat

section Sums

variable (a b : Word)

theorem toNat_endAround :
    (endAround a b).toNat =
      if 2 ^ 36 ≤ a.toNat + b.toNat then a.toNat + b.toNat + 1 - 2 ^ 36 else a.toNat + b.toNat := by
  have ha := a.isLt
  have hb := b.isLt
  have hcarry : BitVec.carry 36 a b false = decide (2 ^ 36 ≤ a.toNat + b.toNat) := by
    simp [BitVec.carry, Nat.mod_eq_of_lt ha, Nat.mod_eq_of_lt hb]
  rw [endAround, hcarry, BitVec.toNat_add, BitVec.toNat_add, BitVec.toNat_ofNat]
  by_cases h : 2 ^ 36 ≤ a.toNat + b.toNat
  · rw [if_pos h, decide_eq_true h, Bool.toNat_true]
    omega
  · rw [if_neg h, decide_eq_false h, Bool.toNat_false]
    omega

/-- Adding the carry back in keeps the sum modulo `2 ^ 36 - 1`. -/
theorem endAround_modEq : (endAround a b).toNat ≡ a.toNat + b.toNat [ZMOD 2 ^ 36 - 1] := by
  rw [toNat_endAround]
  unfold Int.ModEq
  split <;> omega

variable {a b}

/-- **The signed number of an end-around sum**, if it is small enough for a word. -/
theorem signed_endAround (h : (a.signed + b.signed).natAbs < 2 ^ 35) :
    (endAround a b).signed = a.signed + b.signed := by
  refine eq_of_modEq ?_ (natAbs_signed_lt _) h
  calc (endAround a b).signed ≡ (endAround a b).toNat [ZMOD 2 ^ 36 - 1] := signed_modEq _
    _ ≡ a.toNat + b.toNat [ZMOD 2 ^ 36 - 1] := endAround_modEq a b
    _ ≡ a.signed + b.signed [ZMOD 2 ^ 36 - 1] := ((signed_modEq a).add (signed_modEq b)).symm

/-! ### Addition -/

/-- Unless two negative zeros are added, a sum is that of the signed numbers. -/
theorem add_of_not (h : ¬(a = negativeZero ∧ b = negativeZero)) :
    a.add b = ofSigned (a.signed + b.signed) := by
  rw [add, if_neg h]

/-- The signed number of a sum, if it is small enough for a word. -/
theorem signed_add (h : (a.signed + b.signed).natAbs < 2 ^ 35) :
    (a.add b).signed = a.signed + b.signed := by
  by_cases hboth : a = negativeZero ∧ b = negativeZero
  · obtain ⟨rfl, rfl⟩ := hboth
    decide
  · rw [add_of_not hboth, signed_ofSigned h]

/-- A sum of words other than two negative zeros that is small enough is not negative zero. -/
theorem add_ne_negativeZero (h : (a.signed + b.signed).natAbs < 2 ^ 35)
    (hboth : ¬(a = negativeZero ∧ b = negativeZero)) : a.add b ≠ negativeZero := by
  rw [add_of_not hboth, Ne, ofSigned_eq_negativeZero_iff]
  omega

/-- The order of two words makes no difference to their sum. -/
protected theorem add_comm (a b : Word) : a.add b = b.add a := by
  rw [add, add, Int.add_comm]
  exact if_congr and_comm rfl rfl

/-- **Addition is end-around addition** of the bits as long as the signed sum has at most thirty-five
bits, except that a zero is positive unless two negative zeros are added; and it is commutative. -/
theorem add_eq_endAround (a b : Word) :
    ((a.signed + b.signed).natAbs < 2 ^ 35 →
      (a.add b).signed = a.signed + b.signed ∧
      ((endAround a b).isZero = false → a.add b = endAround a b) ∧
      ((endAround a b).isZero = true →
        a.add b = if a = negativeZero ∧ b = negativeZero then negativeZero else positiveZero)) ∧
    a.add b = b.add a := by
  refine ⟨fun h => ⟨signed_add h, fun hzero => ?_, fun hzero => ?_⟩, Word.add_comm a b⟩
  · -- neither of the two is a zero, and they stand for the same number
    have hne : endAround a b ≠ negativeZero := fun heq => by
      rw [isZero_iff.2 (.inr heq)] at hzero
      cases hzero
    refine eq_of_signed_eq ((signed_add h).trans (signed_endAround h).symm) ?_ hne
    refine add_ne_negativeZero h ?_
    rintro ⟨rfl, rfl⟩
    exact hne (by decide)
  · have hsum : (a.add b).signed = 0 := by
      rw [signed_add h, ← signed_endAround h]
      exact signed_eq_zero_iff.2 (isZero_iff.1 hzero)
    by_cases hboth : a = negativeZero ∧ b = negativeZero
    · rw [if_pos hboth, hboth.1, hboth.2, add_negativeZero]
    · rw [if_neg hboth]
      exact (signed_eq_zero_iff.1 hsum).resolve_right (add_ne_negativeZero h hboth)

/-- The least and the greatest number of a word, whose sum is zero, and the greatest and minus one, where
a carry is added back in. -/
theorem add_eq_endAround_extremes :
    ((signed 0o400000000000 + signed 0o377777777777).natAbs < 2 ^ 35 ∧
      (endAround 0o400000000000 0o377777777777).isZero = true) ∧
    ((signed 0o377777777777 + signed 0o777777777776).natAbs < 2 ^ 35 ∧
      (endAround 0o377777777777 0o777777777776).isZero = false) ∧
    (add 0o400000000000 0o377777777777).signed =
      signed 0o400000000000 + signed 0o377777777777 ∧
    add 0o400000000000 0o377777777777 = positiveZero ∧
    add 0o400000000000 0o377777777777 = add 0o377777777777 0o400000000000 ∧
    add 0o377777777777 0o777777777776 = endAround 0o377777777777 0o777777777776 := by
  have hsmall : (signed 0o400000000000 + signed 0o377777777777).natAbs < 2 ^ 35 := by decide
  have hzero : (endAround 0o400000000000 0o377777777777).isZero = true := by decide
  have hsmall' : (signed 0o377777777777 + signed 0o777777777776).natAbs < 2 ^ 35 := by decide
  have hzero' : (endAround 0o377777777777 0o777777777776).isZero = false := by decide
  obtain ⟨hsum, hcomm⟩ := add_eq_endAround 0o400000000000 0o377777777777
  obtain ⟨hsum', -⟩ := add_eq_endAround 0o377777777777 0o777777777776
  exact ⟨⟨hsmall, hzero⟩, ⟨hsmall', hzero'⟩, (hsum hsmall).1, (hsum hsmall).2.2 hzero, hcomm,
    (hsum' hsmall').2.1 hzero'⟩

/-- **Which sums are which zero.**  A sum is negative zero if both words are, and also if the signed sum
is negative and loses all of its bits; any other zero is positive.  So negative zero comes from negative
zeros only, exactly if the signed sum is not that one number. -/
theorem add_isZero_iff (a b : Word) :
    (a.add b = negativeZero ↔
      (a = negativeZero ∧ b = negativeZero) ∨ a.signed + b.signed = -2 ^ 35) ∧
    (a.add b = positiveZero ↔ ¬(a = negativeZero ∧ b = negativeZero) ∧
      (a.signed + b.signed = 0 ∨ a.signed + b.signed = 2 ^ 35)) ∧
    ((a.add b = negativeZero ↔ a = negativeZero ∧ b = negativeZero) ↔
      a.signed + b.signed ≠ -2 ^ 35) := by
  have ha := natAbs_signed_lt a
  have hb := natAbs_signed_lt b
  by_cases hboth : a = negativeZero ∧ b = negativeZero
  · obtain ⟨rfl, rfl⟩ := hboth
    decide
  · rw [add_of_not hboth, ofSigned_eq_negativeZero_iff, ofSigned_eq_positiveZero_iff]
    simp only [hboth, false_or, iff_false, not_false_eq_true, true_and]
    omega

/-- The least number of a word and minus one: neither is a zero, and their sum is negative zero. -/
example : add 0o400000000000 0o777777777776 = negativeZero := by decide

end Sums

end FileDirectory.Word
