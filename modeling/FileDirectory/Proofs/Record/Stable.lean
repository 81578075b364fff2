/-
**What was read from a record reads back.**

Whatever is in the words of a sector, the item that is made out of it is recorded as it is: numbers
that come from a field fit into it, and text that comes from words goes back into as many.  So what is
read, recorded and read again is the same.

Main results:

* `FileDirectory.Record.stored_textAt`, `FileDirectory.Record.stored_keyOf` — texts and names that were
  read from a sector read back;
* `FileDirectory.LeadItem.stored_of_ofSector`, `FileDirectory.MainItem.stored_of_ofSector`,
  `FileDirectory.BackupInfo.stored_ofSector` — so do the items of records.
-/

import FileDirectory.Proofs.Record.Sector
import FileDirectory.Proofs.Word.Join

set_option autoImplicit false

namespace FileDirectory

/-! ### Texts and names -/

theorem Sector.length_run (s : Sector) {start count : Nat} (h : start + count ≤ sectorWords) :
    (s.run start count).length = count := by
  rw [run, List.length_take, List.length_drop, Vector.length_toList]
  omega

namespace Record

variable {s : Sector}

/-- **Text that was read from words reads back from as many.** -/
theorem stored_textAt {start count : Nat} (h : start + count ≤ sectorWords) :
    Fieldata.stored (textAt s start count) count = textAt s start count := by
  have hwords := Fieldata.encode_decode (s.run start count)
  rw [Sector.length_run s h] at hwords
  rw [Fieldata.stored, textAt, hwords]

@[simp] theorem stored_nameOf : (nameOf s).stored = nameOf s := by
  rw [SetName.stored, nameOf, stored_textAt (by decide), stored_textAt (by decide)]

@[simp] theorem stored_keyOf : (keyOf s).stored = keyOf s := by
  have hcycle : (keyOf s).cycle % 2 ^ 18 = (keyOf s).cycle := Nat.mod_eq_of_lt (Word.get_lt _ .h2)
  have hname : (keyOf s).set.stored = (keyOf s).set := stored_nameOf
  rw [CycleKey.stored, hcycle, hname]

end Record

open Record

/-! ### Items -/

section Items

variable {s : Sector}

theorem Word.toNat_mod (w : Word) : w.toNat % 2 ^ 36 = w.toNat := Nat.mod_eq_of_lt w.isLt

/-- The half of a word fits into one. -/
theorem Word.get_h1_mod (w : Word) : w.get .h1 % 2 ^ 18 = w.get .h1 :=
  Nat.mod_eq_of_lt (Word.get_lt w .h1)

theorem Word.get_h2_mod (w : Word) : w.get .h2 % 2 ^ 18 = w.get .h2 :=
  Nat.mod_eq_of_lt (Word.get_lt w .h2)

/-- **A lead item that was read reads back.** -/
theorem LeadItem.stored_of_ofSector {item : LeadItem} (h : LeadItem.ofSector s = .ok item) :
    item.stored = item := by
  unfold LeadItem.ofSector at h
  split at h
  · cases h
  · cases h
    simp only [LeadItem.stored, stored_nameOf, Word.get_h1_mod, Word.get_h2_mod]
    rw [stored_textAt (by decide), stored_textAt (by decide), stored_textAt (by decide)]

/-- **A main item that was read reads back.** -/
theorem MainItem.stored_of_ofSector {item : MainItem} (h : MainItem.ofSector s = .ok item) :
    item.stored = item := by
  unfold MainItem.ofSector at h
  split at h
  · cases h
  · cases h
    simp only [MainItem.stored, stored_keyOf, Word.get_h1_mod, Word.get_h2_mod, Word.toNat_mod]
    rw [stored_textAt (by decide), stored_textAt (by decide), stored_textAt (by decide)]
    rfl

/-- **The backup information that was read reads back.** -/
theorem BackupInfo.stored_ofSector (s : Sector) :
    (BackupInfo.ofSector s).stored = BackupInfo.ofSector s := by
  have hmax : s[6].get .s1 % 2 ^ 6 = s[6].get .s1 := Nat.mod_eq_of_lt (Word.get_lt _ .s1)
  have hcurrent : s[6].get .s2 % 2 ^ 6 = s[6].get .s2 := Nat.mod_eq_of_lt (Word.get_lt _ .s2)
  simp only [BackupInfo.stored, BackupInfo.ofSector, hmax, hcurrent, Word.toNat_mod]
  rw [stored_textAt (by decide), stored_textAt (by decide)]

/-! ### Extents -/

/-- Numbers of file tracks are read from words. -/
theorem Sector.fileTrack_lt {e : Extent} (h : e ∈ s.extents) : e.fileTrack < 2 ^ 36 := by
  unfold Sector.extents at h
  generalize s[5].get .h1 = count, s.run 6 (3 * extentsPerRecord) = ws at h
  fun_induction Record.extentsOf count ws with
  | case1 count file pack tracks ws ih =>
      rcases List.mem_cons.1 h with rfl | h
      · exact file.isLt
      · exact ih h
  | case2 => cases h

theorem Sector.sequence_lt (s : Sector) : s.sequence < 2 ^ 6 := Word.get_lt _ .s2

end Items

end FileDirectory
