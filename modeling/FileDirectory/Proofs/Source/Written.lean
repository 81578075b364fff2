/-
**Written words are read back.**

A list of words is written one to a line, each as a zero and twelve octal digits.  Every line is an
entry, a literal that stands for the word on it, so that reading what was written gives the words.

Main definitions:

* `FileDirectory.Source.WordList.numeral`, `FileDirectory.Source.WordList.line` — the bytes of a word
  that is written.

Main results:

* `FileDirectory.Source.WordList.utf8_write` — a list of words that is written is the lines of its words;
* `FileDirectory.Source.WordList.read_lines` — the lines of words are read back as these words.
-/

import FileDirectory.Proofs.Source.Entries
import FileDirectory.Proofs.Text.Bytes

set_option autoImplicit false

namespace FileDirectory.Source.WordList

/-! ### Octal digits -/

/-- The low octal digits of a number, most significant first. -/
def octalBytes (width n : Nat) : List UInt8 :=
  (List.range width).map fun i => UInt8.ofNat (0x30 + n / 8 ^ (width - 1 - i) % 8)

theorem octalBytes_succ (width n : Nat) :
    octalBytes (width + 1) n = octalBytes width (n / 8) ++ [UInt8.ofNat (0x30 + n % 8)] := by
  rw [octalBytes, List.range_succ, List.map_append, octalBytes, List.map_singleton]
  congr 1
  · refine List.map_congr_left fun i hi => ?_
    have hlt := List.mem_range.1 hi
    have hpow : width + 1 - 1 - i = width - 1 - i + 1 := by omega
    rw [hpow, Nat.pow_succ', Nat.div_div_eq_div_mul]
  · simp

/-- The digits of a number and the characters that stand for them. -/
theorem utf8_octalField (width n : Nat) : utf8 (octalField width n) = octalBytes width n := by
  have hdigit : ∀ d < 8, (Nat.digitChar d).toNat < 128 ∧
      UInt8.ofNat (Nat.digitChar d).toNat = UInt8.ofNat (0x30 + d) := by decide
  have hlt : ∀ c ∈ octalDigits width n, c.toNat < 128 := by
    induction width generalizing n with
    | zero => simp
    | succ width ih =>
        rw [octalDigits_succ]
        exact List.forall_mem_append.2
          ⟨ih (n / 8), List.forall_mem_singleton.2 (hdigit _ (Nat.mod_lt n (by decide))).1⟩
  rw [octalField, utf8_of_lt hlt]
  clear hlt
  induction width generalizing n with
  | zero => rfl
  | succ width ih =>
      rw [octalDigits_succ, octalBytes_succ, List.map_append, ih, List.map_singleton,
        (hdigit _ (Nat.mod_lt n (by decide))).2]

/-- An octal digit is a digit other than eight and nine, and not white. -/
theorem octal_digit {width n : Nat} {b : UInt8} (hb : b ∈ octalBytes width n) :
    isDigit b = true ∧ (b ≠ 0x38 ∧ b ≠ 0x39) ∧ isBlank b = false := by
  have hdigit : ∀ d < 8, isDigit (UInt8.ofNat (0x30 + d)) = true ∧
      (UInt8.ofNat (0x30 + d) ≠ 0x38 ∧ UInt8.ofNat (0x30 + d) ≠ 0x39) ∧
      isBlank (UInt8.ofNat (0x30 + d)) = false := by decide
  obtain ⟨i, -, rfl⟩ := List.mem_map.1 hb
  exact hdigit _ (Nat.mod_lt _ (by decide))

/-- The low digits of a number, after a zero, stand for its remainder. -/
theorem exactValue_octalBytes (width n : Nat) :
    exactValue 8 (0x30 :: octalBytes width n) = n % 8 ^ width := by
  induction width generalizing n with
  | zero => rw [Nat.pow_zero, Nat.mod_one]; rfl
  | succ width ih =>
      have hdigit : ∀ d < 8, isDigit (UInt8.ofNat (0x30 + d)) = true ∧
          (UInt8.ofNat (0x30 + d)).toNat - 0x30 = d := by decide
      have hlast := hdigit _ (Nat.mod_lt n (by decide))
      rw [octalBytes_succ, ← List.cons_append, exactValue_append_digit _ _ hlast.1, hlast.2, ih,
        Nat.pow_succ', Nat.mod_mul]
      omega

/-! ### Lines -/

/-- A word as it is written: a zero and twelve octal digits. -/
def numeral (w : Word) : List UInt8 := 0x30 :: octalBytes 12 w.toNat

/-- A word as it is written on a line of its own. -/
def line (w : Word) : List UInt8 := numeral w ++ [lineFeed]

/-- **A list of words that is written** is the lines of its words. -/
theorem utf8_write (ws : List Word) : utf8 (write ws) = ws.flatMap line := by
  rw [write, utf8_join, List.flatMap_map]
  refine List.flatMap_congr fun w _ => ?_
  rw [utf8_append, utf8_append, Word.text, utf8_octalField]
  rfl

/-- What is written for a word is a literal. -/
theorem isLiteral_numeral (w : Word) : IsLiteral (numeral w) where
  first := ⟨0x30, rfl, rfl⟩
  rest := List.forall_mem_cons.2 ⟨.inl rfl, fun _ hb => .inl (octal_digit hb).1⟩
  octal _ := List.forall_mem_cons.2 ⟨by decide, fun _ hb => (octal_digit hb).2.1⟩

/-- What is written for a word stands for its value. -/
theorem number_numeral (w : Word) : number (numeral w) = w.toNat := by
  rw [number, numeral, writtenRadix, List.head?_cons, if_pos rfl, exactValue_octalBytes]
  exact Nat.mod_eq_of_lt w.isLt

theorem reduced_numeral (w : Word) : reduced (numeral w) = w.toNat := by
  rw [reduced, number_numeral]
  exact Nat.mod_eq_of_lt (w.isLt.trans (by decide))

/-- The entries of lines are what is written on them. -/
theorem run_entriesFrom_lines (pos : Nat) (ws : List Word) :
    (entriesFrom pos (ws.flatMap line)).map Entry.run = ws.map numeral := by
  induction ws generalizing pos with
  | nil => rw [List.flatMap_nil, entriesFrom_nil]; rfl
  | cons w ws ih =>
      have hsolid : ∀ b ∈ numeral w, isSolid b = true :=
        List.forall_mem_cons.2 ⟨rfl, fun b hb => by simp [isSolid, (octal_digit hb).2.2]⟩
      have hne : numeral w ≠ [] := List.cons_ne_nil _ _
      have hline : ∀ b ∈ (lineFeed :: ws.flatMap line).head?, isSolid b = false := by
        rintro b ⟨⟩
        rfl
      rw [List.flatMap_cons, line, List.append_assoc, List.singleton_append,
        entriesFrom_run pos hne hsolid hline, entriesFrom_blank _ _ rfl, List.map_cons, ih,
        List.map_cons]

/-- **Written words are read back.** -/
theorem read_lines (ws : List Word) : read (ws.flatMap line) = .ok ws := by
  have hruns : (entries (ws.flatMap line)).map Entry.run = ws.map numeral :=
    run_entriesFrom_lines 0 ws
  refine read_eq_ok_iff.2 ⟨fun e he => ?_, ?_⟩
  · have hrun : e.run ∈ ws.map numeral := hruns ▸ List.mem_map_of_mem he
    obtain ⟨w, -, hw⟩ := List.mem_map.1 hrun
    rw [Fits, ← hw, reduced_numeral]
    exact ⟨isLiteral_numeral w, w.isLt⟩
  · calc ws = ws.map fun w => Word.ofNat (reduced (numeral w)) := by simp [reduced_numeral]
      _ = (ws.map numeral).map fun run => Word.ofNat (reduced run) := by rw [List.map_map]; rfl
      _ = _ := by rw [← hruns, List.map_map]; rfl

end FileDirectory.Source.WordList
