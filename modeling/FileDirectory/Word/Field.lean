/-
**Fields of a word.**

A word is divided into halves, thirds, quarters or sixths, each named by its letter and its place
counted from the most significant end: `H1` and `H2` of eighteen bits, `T1` to `T3` of twelve,
`Q1` to `Q4` of nine, `S1` to `S6` of six.

Main definitions:

* `FileDirectory.Field` — a run of bits inside a word;
* `FileDirectory.Word.get`, `FileDirectory.Word.put` — reading and overwriting a field;
* `FileDirectory.Word.join` — a word built from the values of its fields.

Main results:

* `FileDirectory.Word.get_put_of_disjoint` — writing a field leaves disjoint fields alone.
-/

import FileDirectory.Word

set_option autoImplicit false

namespace FileDirectory

/-! ### Fields -/

/-- A run of bits inside a word, named by its lowest bit and its width. -/
structure Field where
  /-- The lowest bit, counted from the least significant end. -/
  low : Nat
  /-- How many bits the field has. -/
  width : Nat
  /-- A field ends inside the word. -/
  fits : low + width ≤ 36 := by decide

namespace Field

/-- The upper half. -/
def h1 : Field := { low := 18, width := 18 }
/-- The lower half. -/
def h2 : Field := { low := 0, width := 18 }
/-- The first third. -/
def t1 : Field := { low := 24, width := 12 }
/-- The second third. -/
def t2 : Field := { low := 12, width := 12 }
/-- The last third. -/
def t3 : Field := { low := 0, width := 12 }
/-- The first quarter. -/
def q1 : Field := { low := 27, width := 9 }
/-- The second quarter. -/
def q2 : Field := { low := 18, width := 9 }
/-- The third quarter. -/
def q3 : Field := { low := 9, width := 9 }
/-- The last quarter. -/
def q4 : Field := { low := 0, width := 9 }
/-- The first sixth. -/
def s1 : Field := { low := 30, width := 6 }
/-- The second sixth. -/
def s2 : Field := { low := 24, width := 6 }
/-- The third sixth. -/
def s3 : Field := { low := 18, width := 6 }
/-- The fourth sixth. -/
def s4 : Field := { low := 12, width := 6 }
/-- The fifth sixth. -/
def s5 : Field := { low := 6, width := 6 }
/-- The last sixth. -/
def s6 : Field := { low := 0, width := 6 }

/-- The halves of a word, most significant first. -/
def halves : List Field := [h1, h2]

/-- The thirds of a word, most significant first. -/
def thirds : List Field := [t1, t2, t3]

/-- The quarters of a word, most significant first. -/
def quarters : List Field := [q1, q2, q3, q4]

/-- The sixths of a word, most significant first. -/
def sixths : List Field := [s1, s2, s3, s4, s5, s6]

/-- Two fields have no bit in common. -/
def Disjoint (f g : Field) : Prop :=
  f.low + f.width ≤ g.low ∨ g.low + g.width ≤ f.low

instance (f g : Field) : Decidable (f.Disjoint g) := by
  unfold Disjoint; infer_instance

/-- The word whose bits are exactly those of the field. -/
def mask (f : Field) : Word :=
  (BitVec.allOnes f.width).setWidth 36 <<< f.low

theorem getLsbD_mask (f : Field) (i : Nat) :
    f.mask.getLsbD i = decide (f.low ≤ i ∧ i < f.low + f.width) := by
  have := f.fits
  simp only [mask, BitVec.getLsbD_shiftLeft, BitVec.getLsbD_setWidth, BitVec.getLsbD_allOnes]
  by_cases h₁ : f.low ≤ i <;> by_cases h₂ : i < f.low + f.width <;> simp [h₁, h₂] <;> omega

end Field

namespace Word

/-! ### Reading and writing a field -/

/-- The value of a field. -/
def get (w : Word) (f : Field) : Nat :=
  (w.extractLsb' f.low f.width).toNat

/-- The word with a field overwritten; the bits of `v` that do not fit are lost. -/
def put (w : Word) (f : Field) (v : Nat) : Word :=
  (w &&& ~~~f.mask) ||| ((BitVec.ofNat f.width v).setWidth 36 <<< f.low)

@[simp] theorem get_zero (f : Field) : (0 : Word).get f = 0 := by
  simp [get]

theorem getLsbD_put (w : Word) (f : Field) (v i : Nat) :
    (w.put f v).getLsbD i =
      if f.low ≤ i ∧ i < f.low + f.width then v.testBit (i - f.low) else w.getLsbD i := by
  have hf := f.fits
  simp only [put, BitVec.getLsbD_or, BitVec.getLsbD_and, BitVec.getLsbD_not, Field.getLsbD_mask,
    BitVec.getLsbD_shiftLeft, BitVec.getLsbD_setWidth, BitVec.getLsbD_ofNat]
  by_cases hin : f.low ≤ i ∧ i < f.low + f.width
  · have h₁ : i < 36 := by omega
    have h₂ : i - f.low < 36 := by omega
    have h₃ : i - f.low < f.width := by omega
    have h₄ : ¬ i < f.low := by omega
    simp [hin, h₁, h₂, h₃, h₄]
  · by_cases hi : i < 36
    · by_cases hlow : i < f.low
      · simp [hin, hi, hlow]
      · have h₃ : ¬ i - f.low < f.width := by omega
        simp [hin, hi, hlow, h₃]
    · simp [hin, hi, BitVec.getLsbD_of_ge w i (by omega)]

/-- Writing a field leaves disjoint fields alone. -/
theorem get_put_of_disjoint (w : Word) {f g : Field} (h : f.Disjoint g) (v : Nat) :
    (w.put f v).get g = w.get g := by
  unfold get
  congr 1
  refine BitVec.eq_of_getLsbD_eq fun i hi => ?_
  rw [BitVec.getLsbD_extractLsb', BitVec.getLsbD_extractLsb', getLsbD_put]
  have hout : ¬(f.low ≤ g.low + i ∧ g.low + i < f.low + f.width) := by
    unfold Field.Disjoint at h
    omega
  simp [hout]

/-! ### Whole divisions -/

/-- The values of the given fields. -/
def split (w : Word) (fields : List Field) : List Nat :=
  fields.map w.get

/-- The word whose given fields have the given values, its other bits zero. -/
def join (fields : List Field) (values : List Nat) : Word :=
  (fields.zip values).foldl (fun w part => w.put part.1 part.2) 0

end Word

end FileDirectory
