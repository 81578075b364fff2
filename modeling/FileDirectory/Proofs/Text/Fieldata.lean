/-
**Text survives its words.**

Words of Fieldata read as text and written again are the same words, since the two tables of the
character set undo each other.  A text that has been through words once is therefore not changed by
going through them again, and the names and keys that the directory accepts are not changed at all.

Main results:

* `FileDirectory.Fieldata.encode_decode` — words survive being read as text;
* `FileDirectory.Fieldata.stored_stored` — a text that reads back from words reads back again;
* `FileDirectory.Fieldata.stored_of_allows` — a text of the characters of names and keys that fits
  reads back as it is;
* `FileDirectory.Fieldata.stored_of_fits` — accepted names and keys read back as they are.
-/

import FileDirectory.Catalog.Argument
import FileDirectory.Proofs.Text.Coding
import FileDirectory.Text.Fieldata

set_option autoImplicit false

namespace FileDirectory.Fieldata

/-! ### Characters -/

theorem character_lt (n : Nat) : (character n).toNat < 128 := by
  have hall : ∀ c ∈ characters, c.toNat < 128 := by
    have hbelow : (characters.all fun c => c.toNat < 128) = true := by decide
    simpa using hbelow
  unfold character
  have hlt : n % 64 < characters.length := Nat.mod_lt _ (by decide)
  rw [List.getD_eq_getElem?_getD, List.getElem?_eq_getElem hlt, Option.getD_some]
  exact hall _ (List.getElem_mem hlt)

theorem lawful_coding : coding.Lawful where
  divides := Word.divides_sixths
  code_lt f hf b := by
    rw [Word.width_of_mem_sixths f hf]
    exact code_lt b
  code_blank := by decide
  character_space := by decide

/-- Every word can be read. -/
theorem legible (w : Word) : coding.Legible w := fun value hvalue =>
  ⟨character_lt value, code_character value (Word.lt_of_mem_split_sixths hvalue)⟩

/-! ### Words and texts -/

/-- **Words survive being read as text.** -/
theorem encode_decode (ws : List Word) : encode (decode ws) ws.length = ws :=
  lawful_coding.encode_decode fun w _ => legible w

/-- **A text that reads back from words reads back again.** -/
theorem stored_stored (s : String) (count : Nat) : stored (stored s count) count = stored s count := by
  have hlength := length_encode s count
  have hwords := encode_decode (encode s count)
  rw [hlength] at hwords
  rw [stored, stored, hwords]

/-- Characters of names and keys survive as codes. -/
theorem keeps_of_allows {c : Char} (h : NameRole.allows c = true) : coding.Keeps c := by
  have hall : ∀ n < 128, NameRole.allows (Char.ofNat n) = true → Char.ofNat n ≠ ' ' ∧
      character (code (UInt8.ofNat (Char.ofNat n).toNat)) = Char.ofNat n := by decide +kernel
  have hlt : c.toNat < 128 := by
    simp only [NameRole.allows, Bool.or_eq_true, Bool.and_eq_true, decide_eq_true_eq] at h
    rcases h with ((⟨-, hle⟩ | ⟨-, hle⟩) | rfl) | rfl
    · exact Nat.lt_of_le_of_lt hle (by decide)
    · exact Nat.lt_of_le_of_lt hle (by decide)
    · decide
    · decide
  have hself := hall c.toNat hlt
  rw [Char.ofNat_toNat] at hself
  exact ⟨hlt, hself h⟩

/-- **Texts of the characters of names and keys read back as they are** from words that have room for
them. -/
theorem stored_of_allows {s : String} (h : ∀ c ∈ s.toList, NameRole.allows c = true) {count : Nat}
    (hcount : s.toList.length ≤ 6 * count) : stored s count = s :=
  lawful_coding.decode_encode (fun c hc => keeps_of_allows (h c hc)) hcount

/-- **Accepted names and keys read back as they are** from words that have room for them. -/
theorem stored_of_fits {role : NameRole} {s : String} (h : role.Fits s.toList) {count : Nat}
    (hcount : role.maxLength ≤ 6 * count) : stored s count = s := by
  obtain ⟨hallows, -, hlength⟩ := h
  exact stored_of_allows hallows (Nat.le_trans hlength hcount)

end FileDirectory.Fieldata
