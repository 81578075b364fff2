/-
**Texts below 128.**

A character below 128 is one byte in UTF-8, and the byte is the number of the character.  A text of
such characters can be told from its bytes.

Main results:

* `FileDirectory.utf8_of_lt` — the bytes of a text of characters below 128;
* `FileDirectory.utf8_latin1` — bytes below 128, made a text, are the bytes of that text.
-/

import FileDirectory.Text.Bytes
import Mathlib.Data.List.Basic

set_option autoImplicit false

namespace FileDirectory

theorem utf8EncodeChar_of_lt {c : Char} (h : c.toNat < 128) :
    String.utf8EncodeChar c = [UInt8.ofNat c.toNat] := by
  have hval : ¬127 < c.toNat := Nat.not_lt.2 (Nat.le_of_lt_succ h)
  unfold String.utf8EncodeChar
  simp [hval]

/-- A text of characters below 128 has one byte for each. -/
theorem utf8_of_lt {cs : List Char} (h : ∀ c ∈ cs, c.toNat < 128) :
    utf8 (String.ofList cs) = cs.map fun c => UInt8.ofNat c.toNat := by
  rw [utf8, String.toList_ofList]
  induction cs with
  | nil => rfl
  | cons c cs ih =>
      rw [List.flatMap_cons, utf8EncodeChar_of_lt (h c List.mem_cons_self),
        ih fun d hd => h d (List.mem_cons_of_mem _ hd)]
      rfl

/-- The bytes of a text that was put together. -/
theorem utf8_join (parts : List String) : utf8 (String.join parts) = parts.flatMap utf8 := by
  rw [utf8, String.toList_join, List.flatMap_assoc]
  rfl

theorem toNat_latin1Char (b : UInt8) : (latin1Char b).toNat = b.toNat := by
  have hvalid : b.toNat.isValidChar := .inl (Nat.lt_trans b.toNat_lt (by decide))
  rw [latin1Char, Char.ofNat, dif_pos hvalid]
  rfl

/-- Bytes below 128, made a text, are the bytes of that text. -/
theorem utf8_latin1 {bs : List UInt8} (h : ∀ b ∈ bs, b < 128) : utf8 (latin1 bs) = bs := by
  have hlt : ∀ c ∈ bs.map latin1Char, c.toNat < 128 := by
    intro c hc
    obtain ⟨b, hb, rfl⟩ := List.mem_map.1 hc
    rw [toNat_latin1Char]
    exact h b hb
  rw [latin1, utf8_of_lt hlt, List.map_map]
  refine (List.map_congr_left fun b _ => ?_).trans (List.map_id bs)
  rw [Function.comp_apply, toNat_latin1Char, UInt8.ofNat_toNat]
  rfl

end FileDirectory
