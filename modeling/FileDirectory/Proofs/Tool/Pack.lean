/-
**What packing does to numbers.**

Packing a list of words succeeds if all its entries are numbers that fit in a word, and tells otherwise
which entry is the first that is none.  What counts is the number that a literal stands for modulo the
size of a 64-bit number: a literal that is long enough is not refused but taken for another number.

Main definitions:

* `FileDirectory.Tool.evened` — words of an even number, the last of them a zero word if need be;
* `FileDirectory.Tool.PacksBy` — packing a text by the numbers that its entries are taken for.

Main results:

* `FileDirectory.Tool.packsBy_reduced` — packing goes by the numbers modulo `2 ^ 64`;
* `FileDirectory.Tool.packsBy_number_iff` — of which texts it also goes by the numbers themselves.
-/

import FileDirectory.Proofs.Source.Entries
import FileDirectory.Tool

set_option autoImplicit false

namespace FileDirectory.Tool

open Source Source.WordList

/-! ### Outcomes of packing -/

/-- Words, with a zero word after the last one if that has no partner. -/
def evened (ws : List Word) : List Word := if ws.length % 2 = 0 then ws else ws ++ [0]

@[simp] theorem evened_of_even {ws : List Word} (h : ws.length % 2 = 0) : evened ws = ws :=
  if_pos h

theorem length_evened (ws : List Word) : (evened ws).length % 2 = 0 := by
  unfold evened
  split
  · assumption
  · rw [List.length_append, List.length_singleton]
    omega

theorem pack_eq_ok_iff {text bytes : List UInt8} :
    pack text = .ok bytes ↔ ∃ ws, read text = .ok ws ∧ bytes = Packed.packAll (evened ws) := by
  unfold pack
  cases read text with
  | error fault => simp
  | ok ws =>
      dsimp only
      rw [← evened, Packed.encode, if_pos (length_evened ws)]
      simp [eq_comm]

theorem pack_eq_error_iff {text : List UInt8} {failure : Failure} :
    pack text = .error failure ↔
      ∃ position fault, read text = .error (position, fault) ∧ failure = .words position fault := by
  unfold pack
  cases read text with
  | error fault => simp [Prod.ext_iff, eq_comm]
  | ok ws =>
      dsimp only
      rw [← evened, Packed.encode, if_pos (length_evened ws)]
      simp

/-! ### Packing by numbers -/

/-- Packing goes by the given numbers of literals: it succeeds exactly if each entry is a literal with
the number of a word, and then yields these words packed; else it tells where the first entry stands
that is none. -/
structure PacksBy (value : List UInt8 → Nat) (text : List UInt8) : Prop where
  ok_iff : ∀ bytes, pack text = .ok bytes ↔
    (∀ e ∈ entries text, Fits value e) ∧
      bytes = Packed.packAll (evened ((entries text).map fun e => Word.ofNat (value e.run)))
  error_iff : ∀ position, (∃ fault, pack text = .error (.words position fault)) ↔
    ∃ before e after, entries text = before ++ e :: after ∧
      (∀ d ∈ before, Fits value d) ∧ ¬Fits value e ∧ e.start = position

/-- **Packing goes by the numbers modulo the size of a 64-bit number.** -/
theorem packsBy_reduced (text : List UInt8) : PacksBy reduced text where
  ok_iff bytes := by
    simp only [pack_eq_ok_iff, read_eq_ok_iff]
    constructor
    · rintro ⟨ws, ⟨hfits, rfl⟩, rfl⟩
      exact ⟨hfits, rfl⟩
    · rintro ⟨hfits, rfl⟩
      exact ⟨_, ⟨hfits, rfl⟩, rfl⟩
  error_iff position := by
    rw [← read_eq_error_iff]
    refine exists_congr fun fault => pack_eq_error_iff.trans ?_
    constructor
    · rintro ⟨position', fault', h, hfailure⟩
      cases hfailure
      exact h
    · exact fun h => ⟨position, fault, h, rfl⟩

/-! ### Packing by the numbers themselves -/

/-- A literal with the number of a word is taken for that number. -/
theorem reduced_of_fits {e : Entry} (h : Fits number e) : reduced e.run = number e.run :=
  Nat.mod_eq_of_lt (h.2.trans (by decide))

theorem fits_reduced {e : Entry} (h : Fits number e) : Fits reduced e :=
  ⟨h.1, by rw [reduced_of_fits h]; exact h.2⟩

/-- As far as the first entry that is none, every literal that is taken for the number of a word stands
for it. -/
def Exact (text : List UInt8) : Prop :=
  ∀ before e after, entries text = before ++ e :: after →
    (∀ d ∈ before, Fits number d) → Fits reduced e → Fits number e

theorem Exact.fits_number {text : List UInt8} (h : Exact text) {before after : List Entry}
    (hsplit : entries text = before ++ after) (hbefore : ∀ d ∈ before, Fits reduced d) :
    ∀ d ∈ before, Fits number d := by
  induction before using List.reverseRecOn generalizing after with
  | nil => simp
  | append_singleton before e ih =>
      obtain ⟨hbefore, he⟩ := List.forall_mem_append.1 hbefore
      rw [List.append_assoc] at hsplit
      have hnumber := ih hsplit hbefore
      refine List.forall_mem_append.2 ⟨hnumber, List.forall_mem_singleton.2 ?_⟩
      exact h before e after hsplit hnumber (he e List.mem_cons_self)

/-- **A text is packed by its numbers** exactly if no literal, as far as the first entry that is none,
is taken for a smaller number that it does not stand for. -/
theorem packsBy_number_iff (text : List UInt8) : PacksBy number text ↔ Exact text := by
  have hreduced := packsBy_reduced text
  constructor
  · intro h before e after hsplit hbefore he
    by_contra hnot
    -- the entry is refused for its number, though it is not the one that is refused
    obtain ⟨before', e', after', hsplit', -, he', hstart⟩ :=
      (hreduced.error_iff e.start).1 ((h.error_iff e.start).2 ⟨before, e, after, hsplit, hbefore,
        hnot, rfl⟩)
    have heq : e' = e :=
      (areEntries text).eq_of_start (by simp [hsplit']) (by simp [hsplit]) hstart
    exact he' (heq ▸ he)
  · intro h
    refine ⟨fun bytes => (hreduced.ok_iff bytes).trans ?_, fun position =>
      (hreduced.error_iff position).trans ?_⟩
    · have hfits : (∀ e ∈ entries text, Fits reduced e) ↔ ∀ e ∈ entries text, Fits number e :=
        ⟨h.fits_number (List.append_nil _).symm, fun hall e he => fits_reduced (hall e he)⟩
      rw [hfits]
      refine and_congr_right fun hall => ?_
      rw [List.map_congr_left fun e he => congrArg Word.ofNat (reduced_of_fits (hall e he))]
    · refine exists_congr fun before => exists_congr fun e => exists_congr fun after => ?_
      refine and_congr_right fun hsplit => ?_
      constructor
      · rintro ⟨hbefore, he, hstart⟩
        exact ⟨h.fits_number hsplit hbefore, fun hnumber => he (fits_reduced hnumber), hstart⟩
      · rintro ⟨hbefore, he, hstart⟩
        exact ⟨fun d hd => fits_reduced (hbefore d hd), fun hnot =>
          he (h before e after hsplit hbefore hnot), hstart⟩

/-- No literal is taken for another number as long as all numbers are below the size of a 64-bit
number. -/
theorem exact_of_lt {text : List UInt8} (h : ∀ e ∈ entries text, number e.run < 2 ^ 64) :
    Exact text := by
  intro before e after hsplit _ ⟨hliteral, hlt⟩
  have he : e ∈ entries text := by simp [hsplit]
  rw [reduced, Nat.mod_eq_of_lt (h e he)] at hlt
  exact ⟨hliteral, hlt⟩

/-- **What packing does to numbers.**  The entries are the longest runs of bytes that are not white.
Packing goes by their numbers modulo the size of a 64-bit number, and by the numbers themselves
exactly if no literal, as far as the first entry that is none, is taken for a smaller number. -/
theorem packs_numbers (text : List UInt8) :
    AreEntries text (entries text) ∧ PacksBy reduced text ∧ (PacksBy number text ↔ Exact text) :=
  ⟨areEntries text, packsBy_reduced text, packsBy_number_iff text⟩

/-- The least number of sixty-five bits is taken for zero. -/
example : pack (utf8 "18446744073709551616") = pack (utf8 "0") := by cbv

end FileDirectory.Tool
