/-
**Packing and unpacking undo each other.**

Packed bytes are unpacked to a list of words, one to a line, and packing that list gives the bytes
again.  The list differs from one that was packed before in its layout only, and in the zero word that
may have been put after the last.

Main results:

* `FileDirectory.Tool.unpack_eq_lines` — packed bytes unpack to the lines of their words;
* `FileDirectory.Tool.pack_lines` — the lines of words are packed as these words;
* `FileDirectory.Tool.pack_unpack` — packing and unpacking undo each other.
-/

import FileDirectory.Proofs.Packed.RoundTrip
import FileDirectory.Proofs.Source.Written
import FileDirectory.Proofs.Tool.Pack

set_option autoImplicit false

namespace FileDirectory.Tool

open Source.WordList

/-- Whole groups of bytes unpack to the lines of the words in them. -/
theorem unpack_eq_lines {bytes : List UInt8} (h : bytes.length % 9 = 0) :
    unpack bytes = .ok ((Packed.unpackAll bytes).flatMap line) := by
  have hdecode : Packed.decode bytes = .ok (Packed.unpackAll bytes) := if_pos h
  rw [unpack_eq_ok hdecode, utf8_write]

/-- The lines of words of an even number are packed as these words. -/
theorem pack_lines {ws : List Word} (h : ws.length % 2 = 0) :
    pack (ws.flatMap line) = .ok (Packed.packAll ws) :=
  pack_eq_ok_iff.2 ⟨ws, read_lines ws, by rw [evened_of_even h]⟩

/-- What is packed is whole groups of bytes. -/
theorem length_packAll_evened (ws : List Word) : (Packed.packAll (evened ws)).length % 9 = 0 := by
  rw [Packed.length_packAll, Nat.mul_mod_right]

/-- **Packing and unpacking undo each other.**  Whole groups of bytes unpack to a list that packs to
these bytes.  The bytes of a list that can be packed unpack to its words, one to a line and with a zero
word if there was an odd number of them, and that list packs to the same bytes. -/
theorem pack_unpack :
    (∀ bytes : List UInt8, bytes.length % 9 = 0 →
      ∃ text, unpack bytes = .ok text ∧ pack text = .ok bytes) ∧
    ∀ text bytes, pack text = .ok bytes →
      ∃ ws, read text = .ok ws ∧ unpack bytes = .ok ((evened ws).flatMap line) ∧
        pack ((evened ws).flatMap line) = .ok bytes := by
  refine ⟨fun bytes h => ?_, fun text bytes h => ?_⟩
  · obtain ⟨hbytes, heven⟩ := Packed.packAll_unpackAll h
    exact ⟨_, unpack_eq_lines h, by rw [pack_lines heven, hbytes]⟩
  · obtain ⟨ws, hread, rfl⟩ := pack_eq_ok_iff.1 h
    refine ⟨ws, hread, ?_, pack_lines (length_evened ws)⟩
    rw [unpack_eq_lines (length_packAll_evened ws), Packed.unpackAll_packAll (length_evened ws)]

/-- Nine bytes are unpacked and packed again, and a list of one word is packed and unpacked. -/
theorem pack_unpack_one :
    (∃ text, unpack (List.replicate 9 0) = .ok text ∧ pack text = .ok (List.replicate 9 0)) ∧
    ∃ ws, read (utf8 "1_0") = .ok ws ∧
      unpack [0, 0, 0, 0, 0xA0, 0, 0, 0, 0] = .ok ((evened ws).flatMap line) ∧
      pack ((evened ws).flatMap line) = .ok [0, 0, 0, 0, 0xA0, 0, 0, 0, 0] :=
  ⟨pack_unpack.1 _ (by decide), pack_unpack.2 (utf8 "1_0") _ (by decide +kernel)⟩

end FileDirectory.Tool
