/-
**Partial transfers.**

A run of words can be packed into the middle of a byte array, and packed bytes can be unpacked into
the middle of an array of words.  A transfer covers an even number of words and stays inside both
arrays, or it does nothing.

Main definitions:

* `FileDirectory.overlay`, `FileDirectory.slice` — overwriting and reading a run of entries;
* `FileDirectory.Packed.Transfer` — moving entries into an array, which may fail;
* `FileDirectory.Packed.packing`, `FileDirectory.Packed.unpacking` — the two transfers;
* `FileDirectory.Packed.packInto`, `FileDirectory.Packed.unpackFrom` — what they come to, if they do
  not fail.

Main results:

* `FileDirectory.size_overlay`, `FileDirectory.getElem?_overlay` — overwriting changes exactly the
  run.
-/

import FileDirectory.Packed

set_option autoImplicit false

namespace FileDirectory

/-! ### Overwriting a run -/

/-- The array with the entries from `start` on overwritten by `xs`, as far as they lie inside. -/
def overlay {α : Type} (dst : Array α) (start : Nat) : List α → Array α
  | [] => dst
  | x :: xs => overlay (dst.setIfInBounds start x) (start + 1) xs

@[simp] theorem overlay_nil {α : Type} (dst : Array α) (start : Nat) :
    overlay dst start [] = dst := rfl

theorem overlay_cons {α : Type} (dst : Array α) (start : Nat) (x : α) (xs : List α) :
    overlay dst start (x :: xs) = overlay (dst.setIfInBounds start x) (start + 1) xs := rfl

@[simp] theorem size_overlay {α : Type} (dst : Array α) (start : Nat) (xs : List α) :
    (overlay dst start xs).size = dst.size := by
  induction xs generalizing dst start with
  | nil => rfl
  | cons x xs ih => simp [overlay_cons, ih]

theorem overlay_append {α : Type} (dst : Array α) (start : Nat) (xs ys : List α) :
    overlay dst start (xs ++ ys) = overlay (overlay dst start xs) (start + xs.length) ys := by
  induction xs generalizing dst start with
  | nil => rfl
  | cons x xs ih =>
    rw [List.cons_append, overlay_cons, ih, overlay_cons, List.length_cons, Nat.add_assoc,
      Nat.add_comm 1]

/-- Overwriting changes exactly the run. -/
theorem getElem?_overlay {α : Type} (dst : Array α) (start : Nat) (xs : List α) (i : Nat)
    (hfits : start + xs.length ≤ dst.size) :
    (overlay dst start xs)[i]? =
      if start ≤ i ∧ i < start + xs.length then xs[i - start]? else dst[i]? := by
  induction xs generalizing dst start with
  | nil =>
    have h : ¬(start ≤ i ∧ i < start) := by omega
    simp [h]
  | cons x xs ih =>
    simp only [List.length_cons] at hfits
    have hrest : start + 1 + xs.length ≤ (dst.setIfInBounds start x).size := by
      rw [Array.size_setIfInBounds]
      omega
    rw [overlay_cons, ih _ _ hrest, Array.getElem?_setIfInBounds, List.length_cons]
    by_cases h₁ : start = i
    · subst h₁
      have h₂ : start < dst.size := by omega
      have h₃ : ¬(start + 1 ≤ start ∧ start < start + 1 + xs.length) := by omega
      have h₄ : start ≤ start ∧ start < start + (xs.length + 1) := by omega
      rw [if_neg h₃, if_pos rfl, if_pos h₂, if_pos h₄, Nat.sub_self, List.getElem?_cons_zero]
    · rw [if_neg h₁]
      by_cases h₂ : start ≤ i ∧ i < start + (xs.length + 1)
      · have h₃ : start + 1 ≤ i ∧ i < start + 1 + xs.length := by omega
        have h₄ : i - start = i - (start + 1) + 1 := by omega
        rw [if_pos h₃, if_pos h₂, h₄, List.getElem?_cons_succ]
      · have h₃ : ¬(start + 1 ≤ i ∧ i < start + 1 + xs.length) := by omega
        rw [if_neg h₃, if_neg h₂]

/-- The `count` entries of an array from `offset` on, as far as they lie inside. -/
def slice {α : Type} (xs : Array α) (offset count : Nat) : List α :=
  (xs.extract offset (offset + count)).toList

theorem length_slice {α : Type} {xs : Array α} {offset count : Nat}
    (hfits : offset + count ≤ xs.size) : (slice xs offset count).length = count := by
  rw [slice, Array.length_toList, Array.size_extract]
  omega

namespace Packed

/-! ### Checks -/

/-- Words travel in pairs. -/
def checkEven (count : Nat) : Except Fault Unit :=
  if count % 2 = 0 then .ok () else .error (.lengthNotEven count)

/-- The greatest offset that can be told. -/
def maxOffset : Nat := 0xFFFFFFFFFFFFFFFF

/-- The part of one side that a transfer covers lies inside it.  A part whose end cannot be told does
not. -/
def checkRange (side : Side) (offset needed available : Nat) : Except Fault Unit :=
  if offset + needed ≤ maxOffset ∧ offset + needed ≤ available then .ok ()
  else .error (.rangeExceedsBuffer side offset needed available)

/-! ### Pair by pair -/

/-- Overwrites `dst` with packed words from `start` on, nine bytes for each pair. -/
def packPairs (dst : Array UInt8) (start : Nat) : List Word → Array UInt8
  | a :: b :: ws => packPairs (overlay dst start (packPair a b)) (start + 9) ws
  | _ => dst

/-- Overwrites `dst` with the words of packed bytes from `start` on, two words for each nine bytes. -/
def unpackPairs (dst : Array Word) (start : Nat) : List UInt8 → Array Word
  | b₀ :: b₁ :: b₂ :: b₃ :: b₄ :: b₅ :: b₆ :: b₇ :: b₈ :: bs =>
    let pair := unpackPair b₀ b₁ b₂ b₃ b₄ b₅ b₆ b₇ b₈
    unpackPairs (overlay dst start [pair.1, pair.2]) (start + 2) bs
  | _ => dst

/-! ### Transfers -/

/-- Moving entries into an array, which may fail.  What was done to the array by then is not undone. -/
abbrev Transfer (α : Type) := ExceptT Fault (StateM (Array α))

/-- The answer of a transfer into `dst`, and what has become of `dst`. -/
def Transfer.into {α β : Type} (t : Transfer α β) (dst : Array α) : Except Fault β × Array α :=
  t.run.run dst

/-- Packs `count` words, starting at `wordOffset`, into an array of bytes from `byteOffset` on.  The
answer is the number of bytes written. -/
def packing (words : Array Word) (wordOffset count byteOffset : Nat) : Transfer UInt8 Nat := do
  checkEven count
  checkRange .words wordOffset count words.size
  let needed := byteLength count
  checkRange .bytes byteOffset needed (← get).size
  modify fun dst => packPairs dst byteOffset (slice words wordOffset count)
  return needed

/-- Unpacks `count` words from the bytes of `src` that start at `byteOffset` into an array of words
from `wordOffset` on.  The answer is the number of bytes read. -/
def unpacking (src : Array UInt8) (byteOffset count wordOffset : Nat) : Transfer Word Nat := do
  checkEven count
  let needed := byteLength count
  checkRange .bytes byteOffset needed src.size
  checkRange .words wordOffset count (← get).size
  modify fun dst => unpackPairs dst wordOffset (slice src byteOffset needed)
  return needed

/-- Packs `count` words, starting at `wordOffset`, into `dst` from `byteOffset` on.  The answer is
the number of bytes written and the new bytes. -/
def packInto (words : Array Word) (wordOffset count : Nat) (dst : Array UInt8)
    (byteOffset : Nat) : Except Fault (Nat × Array UInt8) :=
  let (answer, after) := (packing words wordOffset count byteOffset).into dst
  answer.map fun moved => (moved, after)

/-- Unpacks `count` words from the bytes of `src` that start at `byteOffset` into `words` from
`wordOffset` on.  The answer is the number of bytes read and the new words. -/
def unpackFrom (words : Array Word) (src : Array UInt8) (byteOffset count : Nat)
    (wordOffset : Nat) : Except Fault (Nat × Array Word) :=
  let (answer, after) := (unpacking src byteOffset count wordOffset).into words
  answer.map fun moved => (moved, after)

end Packed

end FileDirectory
