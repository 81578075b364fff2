/-
**Words are made of their fields.**

Fields that have no bit in common can be written one after another in any word and all read back; a
word is determined by fields that leave no bit out.

Main definitions:

* `FileDirectory.Word.Divides` — fields that divide a word.

Main results:

* `FileDirectory.Word.get_put_self` — reading back the field that was just written gives the low
  bits of what was written;
* `FileDirectory.Word.split_join` — a word that is joined from values splits into them;
* `FileDirectory.Word.Divides.join_split` — the fields that divide a word join into the word.
-/

import FileDirectory.Word.Field
import Mathlib.Algebra.Group.Nat.Defs

set_option autoImplicit false

namespace FileDirectory.Word

/-! ### Words and fields as numbers -/

@[simp] theorem toNat_ofNat (n : Nat) : (ofNat n).toNat = n % 2 ^ 36 := by simp [ofNat]

theorem get_lt (w : Word) (f : Field) : w.get f < 2 ^ f.width :=
  (w.extractLsb' f.low f.width).isLt

/-- Reading back the field that was just written. -/
@[simp] theorem get_put_self (w : Word) (f : Field) (v : Nat) :
    (w.put f v).get f = v % 2 ^ f.width := by
  have hv : (BitVec.ofNat f.width v).toNat = v % 2 ^ f.width := BitVec.toNat_ofNat ..
  rw [← hv, get]
  congr 1
  refine BitVec.eq_of_getLsbD_eq fun i hi => ?_
  rw [BitVec.getLsbD_extractLsb', getLsbD_put, BitVec.getLsbD_ofNat]
  simp [hi]

@[simp] theorem length_split (w : Word) (fields : List Field) :
    (w.split fields).length = fields.length :=
  List.length_map _

/-! ### Reading several fields back -/

theorem Disjoint.symm {f g : Field} (h : f.Disjoint g) : g.Disjoint f := Or.symm h

/-- Writing fields leaves a field alone that is disjoint from each of them. -/
theorem get_foldl_put_of_disjoint (w : Word) {parts : List (Field × Nat)} {f : Field}
    (h : ∀ part ∈ parts, part.1.Disjoint f) :
    (parts.foldl (fun w part => w.put part.1 part.2) w).get f = w.get f := by
  induction parts generalizing w with
  | nil => rfl
  | cons part parts ih =>
      rw [List.foldl_cons, ih _ fun other hother => h other (List.mem_cons_of_mem _ hother)]
      exact get_put_of_disjoint w (h part List.mem_cons_self) part.2

/-- Fields that are disjoint from one another all read back as they were written. -/
theorem map_get_foldl_put (w : Word) {parts : List (Field × Nat)}
    (h : parts.Pairwise fun p q => p.1.Disjoint q.1) :
    (parts.map fun part => (parts.foldl (fun w part => w.put part.1 part.2) w).get part.1) =
      parts.map fun part => part.2 % 2 ^ part.1.width := by
  induction parts generalizing w with
  | nil => rfl
  | cons part parts ih =>
      obtain ⟨hfirst, hrest⟩ := List.pairwise_cons.1 h
      rw [List.map_cons, List.map_cons, List.foldl_cons, ih _ hrest,
        get_foldl_put_of_disjoint _ fun other hother => Disjoint.symm (hfirst other hother),
        get_put_self]

/-- Only as many values count as there are fields. -/
theorem zip_take (fields : List Field) (values : List Nat) :
    fields.zip values = fields.zip (values.take fields.length) := by
  induction fields generalizing values with
  | nil => rfl
  | cons f fields ih =>
      cases values with
      | nil => rfl
      | cons value values =>
          rw [List.length_cons, List.take_succ_cons, List.zip_cons_cons, List.zip_cons_cons, ← ih]

/-- A word that is joined from values splits into what fits of them. -/
theorem split_join {fields : List Field} {values : List Nat}
    (hfields : fields.Pairwise Field.Disjoint) (hlength : fields.length ≤ values.length) :
    (join fields values).split fields =
      (fields.zip values).map fun part => part.2 % 2 ^ part.1.width := by
  have hfst : (fields.zip values).map Prod.fst = fields := List.map_fst_zip hlength
  have hpair : (fields.zip values).Pairwise fun p q => p.1.Disjoint q.1 := by
    rw [← List.pairwise_map, hfst]
    exact hfields
  have hmap := congrArg (List.map (join fields values).get) hfst
  rw [List.map_map] at hmap
  rw [← map_get_foldl_put 0 hpair]
  exact hmap.symm

/-- The first values, if they fit, are those that a word joined from them splits into. -/
theorem split_join_of_lt {fields : List Field} {values : List Nat}
    (hfields : fields.Pairwise Field.Disjoint) (hlength : fields.length ≤ values.length)
    (hfits : ∀ f ∈ fields, ∀ value ∈ values, value < 2 ^ f.width) :
    (join fields values).split fields = values.take fields.length := by
  have hsnd : ((fields.zip values).map Prod.snd) = values.take fields.length := by
    rw [zip_take, List.map_snd_zip (List.length_take_le ..)]
  rw [split_join hfields hlength, ← hsnd]
  refine List.map_congr_left fun part hpart => ?_
  obtain ⟨hfield, hvalue⟩ := List.of_mem_zip hpart
  exact Nat.mod_eq_of_lt (hfits _ hfield _ hvalue)

/-- A word is joined from as many values as it has fields. -/
theorem join_congr {fields : List Field} {v w : List Nat}
    (h : v.take fields.length = w.take fields.length) : join fields v = join fields w := by
  rw [join, join, zip_take, h, ← zip_take]

/-! ### Whole divisions -/

/-- Fields that have no bit in common and leave no bit out. -/
structure Divides (fields : List Field) : Prop where
  disjoint : fields.Pairwise Field.Disjoint
  covers : ∀ i < 36, ∃ f ∈ fields, f.low ≤ i ∧ i < f.low + f.width

section Divides

variable {fields : List Field} (h : Divides fields)

include h

/-- A word is determined by the fields into which it is divided. -/
theorem Divides.eq_of_split {v w : Word} (hsplit : v.split fields = w.split fields) : v = w := by
  refine BitVec.eq_of_getLsbD_eq fun i hi => ?_
  obtain ⟨f, hf, hlow, hhigh⟩ := h.covers i hi
  have hget : v.get f = w.get f := List.map_inj_left.1 hsplit f hf
  have hfield := congrArg (fun x : BitVec f.width => x.getLsbD (i - f.low))
    (BitVec.eq_of_toNat_eq hget)
  have hin : i - f.low < f.width := by omega
  have hplace : f.low + (i - f.low) = i := by omega
  simpa only [BitVec.getLsbD_extractLsb', hin, decide_true, Bool.true_and, hplace] using hfield

/-- The fields into which a word is divided join into the word. -/
theorem Divides.join_split (w : Word) : join fields (w.split fields) = w := by
  refine h.eq_of_split ?_
  have hlength : fields.length ≤ (w.split fields).length := Nat.le_of_eq (w.length_split fields).symm
  have hzip : fields.zip (w.split fields) = fields.map fun f => (f, w.get f) := by
    simpa [split] using List.zip_map' (f := id) (g := w.get) (l := fields)
  rw [split_join h.disjoint hlength, hzip, List.map_map]
  exact List.map_congr_left fun f _ => Nat.mod_eq_of_lt (w.get_lt f)

end Divides

/-- The sixths divide a word. -/
theorem divides_sixths : Divides Field.sixths where
  disjoint := by
    simp only [Field.sixths, List.pairwise_cons, List.mem_cons, List.not_mem_nil, or_false,
      forall_eq_or_imp, forall_eq, false_imp_iff, implies_true, List.Pairwise.nil, and_true]
    decide
  covers := by decide

/-- The quarters divide a word. -/
theorem divides_quarters : Divides Field.quarters where
  disjoint := by
    simp only [Field.quarters, List.pairwise_cons, List.mem_cons, List.not_mem_nil, or_false,
      forall_eq_or_imp, forall_eq, false_imp_iff, implies_true, List.Pairwise.nil, and_true]
    decide
  covers := by decide

theorem width_of_mem_sixths : ∀ f ∈ Field.sixths, f.width = 6 := by
  simp [Field.sixths, Field.s1, Field.s2, Field.s3, Field.s4, Field.s5, Field.s6]

/-- The first six of values that fit are those that a word joined from them splits into. -/
theorem split_join_sixths {values : List Nat} (hlength : 6 ≤ values.length)
    (hfits : ∀ value ∈ values, value < 64) :
    (join Field.sixths values).split Field.sixths = values.take 6 := by
  refine split_join_of_lt divides_sixths.disjoint hlength fun f hf value hvalue => ?_
  rw [width_of_mem_sixths f hf]
  exact hfits value hvalue

theorem lt_of_mem_split_sixths {w : Word} {value : Nat} (h : value ∈ w.split Field.sixths) :
    value < 64 := by
  obtain ⟨field, hfield, rfl⟩ := List.mem_map.1 h
  have hlt := w.get_lt field
  rwa [width_of_mem_sixths field hfield] at hlt

end FileDirectory.Word
