/-
**Partial transfers.**

A transfer between the middle of an array of words and the middle of an array of bytes does there what
packing or unpacking does with the whole of a run, and nothing anywhere else.  If it is refused, nothing
has happened at all.

Main definitions:

* `FileDirectory.Overwritten` — an array after a run of entries has been replaced;
* `FileDirectory.Packed.Part` — the part of one side that a transfer covers;
* `FileDirectory.Packed.Faithful` — what is expected of a transfer, in either direction.

Main results:

* `FileDirectory.Packed.into_packing`, `FileDirectory.Packed.into_unpacking` — all that a transfer can
  do;
* `FileDirectory.Packed.transfers_faithful` — both do what is expected, and what was packed can be
  unpacked again, all of it or any even part.
-/

import FileDirectory.Packed.Transfer
import FileDirectory.Proofs.Packed.RoundTrip

set_option autoImplicit false

namespace FileDirectory

/-! ### Runs of entries -/

/-- `after` is the array `before` with the entries from `start` on replaced by `xs`, for which there is
room. -/
structure Overwritten {α : Type} (before : Array α) (start : Nat) (xs : List α) (after : Array α) :
    Prop where
  size_eq : after.size = before.size
  fits : start + xs.length ≤ before.size
  within : ∀ i < xs.length, after[start + i]? = xs[i]?
  outside : ∀ i, i < start ∨ start + xs.length ≤ i → after[i]? = before[i]?

section Runs

variable {α : Type} {before after : Array α} {start : Nat} {xs : List α}

theorem overwritten_overlay (hfits : start + xs.length ≤ before.size) :
    Overwritten before start xs (overlay before start xs) where
  size_eq := size_overlay before start xs
  fits := hfits
  within := by
    intro i hi
    rw [getElem?_overlay _ _ _ _ hfits, if_pos (by omega), Nat.add_sub_cancel_left]
  outside := by
    intro i hi
    rw [getElem?_overlay _ _ _ _ hfits, if_neg (by omega)]

theorem slice_eq_take_drop (xs : Array α) (offset count : Nat) :
    slice xs offset count = (xs.toList.drop offset).take count := by
  rw [slice, Array.toList_extract, List.extract_eq_take_drop, Nat.add_sub_cancel_left]

/-- A part of a run of entries. -/
theorem take_drop_slice (entries : Array α) (offset : Nat) {count first part : Nat}
    (hpart : first + part ≤ count) :
    ((slice entries offset count).drop first).take part = slice entries (offset + first) part := by
  rw [slice_eq_take_drop, slice_eq_take_drop, List.drop_take, List.take_take, List.drop_drop,
    Nat.min_eq_left (by omega)]

/-- What was written can be read again, all of it or a part. -/
theorem Overwritten.slice_eq (h : Overwritten before start xs after) {first count : Nat}
    (hpart : first + count ≤ xs.length) :
    slice after (start + first) count = (xs.drop first).take count := by
  refine List.ext_getElem? fun i => ?_
  rw [slice_eq_take_drop, List.getElem?_take, List.getElem?_take, List.getElem?_drop,
    List.getElem?_drop, Array.getElem?_toList, Nat.add_assoc]
  by_cases hi : i < count
  · rw [if_pos hi, if_pos hi, h.within (first + i) (by omega)]
  · rw [if_neg hi, if_neg hi]

theorem Overwritten.slice_self (h : Overwritten before start xs after) :
    slice after start xs.length = xs := by
  have hall := h.slice_eq (Nat.le_of_eq (Nat.zero_add xs.length))
  rwa [Nat.add_zero, List.drop_zero, List.take_length] at hall

/-- What lies apart from what was written can be read as before. -/
theorem Overwritten.slice_of_disjoint (h : Overwritten before start xs after) {offset count : Nat}
    (hapart : offset + count ≤ start ∨ start + xs.length ≤ offset) :
    slice after offset count = slice before offset count := by
  refine List.ext_getElem? fun i => ?_
  rw [slice_eq_take_drop, slice_eq_take_drop, List.getElem?_take, List.getElem?_take,
    List.getElem?_drop, List.getElem?_drop, Array.getElem?_toList, Array.getElem?_toList]
  by_cases hi : i < count
  · rw [if_pos hi, if_pos hi, h.outside (offset + i) (by omega)]
  · rw [if_neg hi, if_neg hi]

end Runs

namespace Packed

/-! ### Pair by pair -/

theorem packPairs_eq_overlay (dst : Array UInt8) (start : Nat) (ws : List Word) :
    packPairs dst start ws = overlay dst start (packAll ws) := by
  fun_induction packPairs dst start ws with
  | case1 dst start a b ws ih => rw [ih, packAll_cons_cons, overlay_append, length_packPair]
  | case2 ws dst start h => rw [packAll.eq_2 ws h, overlay_nil]

theorem unpackPairs_eq_overlay (dst : Array Word) (start : Nat) (bs : List UInt8) :
    unpackPairs dst start bs = overlay dst start (unpackAll bs) := by
  fun_induction unpackPairs dst start bs with
  | case1 dst start b₀ b₁ b₂ b₃ b₄ b₅ b₆ b₇ b₈ bs pair ih =>
      rw [ih]
      exact (overlay_append dst start [pair.1, pair.2] (unpackAll bs)).symm
  | case2 bs dst start h => rw [unpackAll.eq_2 bs h, overlay_nil]

/-! ### All that a transfer can do -/

/-- The part of one side that a transfer covers. -/
structure Part where
  side : Side
  offset : Nat
  needed : Nat
  available : Nat

namespace Part

/-- The part lies inside its side, and its end can be told. -/
def Inside (p : Part) : Prop :=
  p.offset + p.needed ≤ maxOffset ∧ p.offset + p.needed ≤ p.available

instance (p : Part) : Decidable p.Inside := inferInstanceAs (Decidable (_ ∧ _))

/-- The fault of a part that does not lie inside its side. -/
def fault (p : Part) : Fault := .rangeExceedsBuffer p.side p.offset p.needed p.available

end Part

section Into

variable {α β : Type} (dst : Array α)

theorem into_checkEven (count : Nat) (next : Transfer α β) :
    Transfer.into (do checkEven count; next) dst =
      if count % 2 = 0 then next.into dst else (.error (.lengthNotEven count), dst) := by
  rw [checkEven]
  split <;> rfl

theorem into_checkRange (p : Part) (next : Transfer α β) :
    Transfer.into (do checkRange p.side p.offset p.needed p.available; next) dst =
      if p.Inside then next.into dst else (.error p.fault, dst) := by
  have hcheck : checkRange p.side p.offset p.needed p.available =
      if p.Inside then .ok () else .error p.fault := rfl
  rw [hcheck]
  split <;> rfl

theorem into_get (next : Array α → Transfer α β) :
    Transfer.into (do next (← get)) dst = (next dst).into dst := rfl

/-- All that is left to do after the checks. -/
theorem into_modify (f : Array α → Array α) (answer : β) :
    Transfer.into (do modify f; return answer) dst = (.ok answer, f dst) := rfl

/-- A transfer of `count` words that covers the parts `source` and `target` puts `xs` into `dst`, or
does nothing. -/
def outcome (count : Nat) (source target : Part) (xs : List α) : Except Fault Nat × Array α :=
  if count % 2 = 0 then
    if source.Inside then
      if target.Inside then (.ok (byteLength count), overlay dst target.offset xs)
      else (.error target.fault, dst)
    else (.error source.fault, dst)
  else (.error (.lengthNotEven count), dst)

end Into

/-- All that packing can do. -/
theorem into_packing (words : Array Word) (wordOffset count byteOffset : Nat) (dst : Array UInt8) :
    (packing words wordOffset count byteOffset).into dst =
      outcome dst count ⟨.words, wordOffset, count, words.size⟩
        ⟨.bytes, byteOffset, byteLength count, dst.size⟩
        (packAll (slice words wordOffset count)) := by
  rw [packing, into_checkEven, into_checkRange dst ⟨.words, wordOffset, count, words.size⟩, into_get,
    into_checkRange dst ⟨.bytes, byteOffset, byteLength count, dst.size⟩, into_modify,
    packPairs_eq_overlay, outcome]

/-- All that unpacking can do. -/
theorem into_unpacking (src : Array UInt8) (byteOffset count wordOffset : Nat) (dst : Array Word) :
    (unpacking src byteOffset count wordOffset).into dst =
      outcome dst count ⟨.bytes, byteOffset, byteLength count, src.size⟩
        ⟨.words, wordOffset, count, dst.size⟩
        (unpackAll (slice src byteOffset (byteLength count))) := by
  rw [unpacking, into_checkEven, into_checkRange dst ⟨.bytes, byteOffset, byteLength count, src.size⟩,
    into_get, into_checkRange dst ⟨.words, wordOffset, count, dst.size⟩, into_modify,
    unpackPairs_eq_overlay, outcome]

/-! ### What is expected of a transfer -/

/-- **A faithful transfer** of `count` words into `dst`.  It succeeds just for an even number of words
and with both parts inside.  The part `target` of `dst` then holds what packing or unpacking the whole
of the other part yields, and the rest what it held.  If it fails, `dst` is as it was, and the fault is
the number of words, the part `source` or the part `target`, whichever is wrong first. -/
structure Faithful {α : Type} (t : Transfer α Nat) (dst : Array α) (count : Nat)
    (source target : Part) (whole : Except Fault (List α)) : Prop where
  ok_iff : (∃ moved, (t.into dst).1 = .ok moved) ↔
    count % 2 = 0 ∧ source.Inside ∧ target.Inside
  of_ok : ∀ {moved after}, t.into dst = (.ok moved, after) → moved = count * 9 / 2 ∧
    ∃ xs, whole = .ok xs ∧ xs.length = target.needed ∧ Overwritten dst target.offset xs after
  of_error : ∀ {e after}, t.into dst = (.error e, after) → after = dst ∧
    (count % 2 ≠ 0 → e = .lengthNotEven count) ∧
    (count % 2 = 0 → ¬source.Inside → e = source.fault) ∧
    (count % 2 = 0 → source.Inside → e = target.fault)

section Faithful

variable {α : Type} {t : Transfer α Nat} {dst : Array α} {count : Nat} {source target : Part}
  {xs : List α}

theorem outcome_of_inside (heven : count % 2 = 0) (hsource : source.Inside) (htarget : target.Inside) :
    outcome dst count source target xs = (.ok (byteLength count), overlay dst target.offset xs) := by
  rw [outcome, if_pos heven, if_pos hsource, if_pos htarget]

theorem inside_of_outcome {moved : Nat}
    (h : (outcome dst count source target xs).1 = .ok moved) :
    count % 2 = 0 ∧ source.Inside ∧ target.Inside := by
  rw [outcome] at h
  split at h
  case isFalse => cases h
  case isTrue heven =>
    split at h
    case isFalse => cases h
    case isTrue hsource =>
      split at h
      case isFalse => cases h
      case isTrue htarget => exact ⟨heven, hsource, htarget⟩

theorem outcome_eq_error {e : Fault} {after : Array α}
    (h : outcome dst count source target xs = (.error e, after)) :
    after = dst ∧ (count % 2 ≠ 0 → e = .lengthNotEven count) ∧
      (count % 2 = 0 → ¬source.Inside → e = source.fault) ∧
      (count % 2 = 0 → source.Inside → e = target.fault) := by
  rw [outcome] at h
  grind

theorem Faithful.of_outcome {whole : Except Fault (List α)}
    (hinto : t.into dst = outcome dst count source target xs)
    (hwhole : count % 2 = 0 → source.Inside → whole = .ok xs ∧ xs.length = target.needed)
    (hsize : target.available = dst.size) : Faithful t dst count source target whole where
  ok_iff := by
    constructor
    · rintro ⟨moved, h⟩
      rw [hinto] at h
      exact inside_of_outcome h
    · rintro ⟨heven, hsource, htarget⟩
      exact ⟨byteLength count, by rw [hinto, outcome_of_inside heven hsource htarget]⟩
  of_ok := by
    intro moved after h
    rw [hinto] at h
    obtain ⟨heven, hsource, htarget⟩ := inside_of_outcome (congrArg Prod.fst h)
    obtain ⟨hok, hlength⟩ := hwhole heven hsource
    rw [outcome_of_inside heven hsource htarget] at h
    obtain ⟨hmoved, rfl⟩ := Prod.mk.inj h
    have hfits : target.offset + xs.length ≤ dst.size := by
      rw [hlength, ← hsize]
      exact htarget.2
    exact ⟨(Except.ok.inj hmoved).symm, xs, hok, hlength, overwritten_overlay hfits⟩
  of_error := by
    intro e after h
    exact outcome_eq_error (hinto.symm.trans h)

end Faithful

theorem byteLength_eq {count : Nat} (heven : count % 2 = 0) : byteLength count = 9 * (count / 2) := by
  rw [byteLength]
  omega

/-- Packing is faithful. -/
theorem faithful_packing (words : Array Word) (wordOffset count byteOffset : Nat)
    (bytes : Array UInt8) :
    Faithful (packing words wordOffset count byteOffset) bytes count
      ⟨.words, wordOffset, count, words.size⟩ ⟨.bytes, byteOffset, byteLength count, bytes.size⟩
      (encode (slice words wordOffset count)) := by
  refine .of_outcome (into_packing words wordOffset count byteOffset bytes) ?_ rfl
  intro heven hsource
  have hlength := length_slice hsource.2
  refine ⟨?_, ?_⟩
  · rw [encode, hlength, if_pos heven]
  · rw [length_packAll, hlength, byteLength_eq heven]

/-- Unpacking is faithful. -/
theorem faithful_unpacking (bytes : Array UInt8) (byteOffset count wordOffset : Nat)
    (words : Array Word) :
    Faithful (unpacking bytes byteOffset count wordOffset) words count
      ⟨.bytes, byteOffset, byteLength count, bytes.size⟩ ⟨.words, wordOffset, count, words.size⟩
      (decode (slice bytes byteOffset (byteLength count))) := by
  refine .of_outcome (into_unpacking bytes byteOffset count wordOffset words) ?_ rfl
  intro heven hsource
  have hlength := (length_slice hsource.2).trans (byteLength_eq heven)
  refine ⟨?_, ?_⟩
  · rw [decode, hlength, if_pos (Nat.mul_mod_right 9 _)]
  · have hpairs : 2 * (count / 2) = count := by omega
    rw [length_unpackAll, hlength, Nat.mul_div_cancel_left _ (by decide), hpairs]

/-! ### Unpacking what was packed -/

theorem packAll_append {xs ys : List Word} (heven : xs.length % 2 = 0) :
    packAll (xs ++ ys) = packAll xs ++ packAll ys := by
  fun_induction packAll xs with
  | case1 a b xs ih =>
      rw [List.cons_append, List.cons_append, packAll_cons_cons, ih (by simp at heven; omega),
        List.append_assoc]
  | case2 xs h =>
      rcases xs with _ | ⟨a, _ | ⟨b, xs⟩⟩
      · rfl
      · simp at heven
      · exact absurd rfl (h a b xs)

section Parts

variable {ws : List Word} {k : Nat} (heven : k % 2 = 0) (hk : k ≤ ws.length)

include heven hk

theorem length_packAll_take : (packAll (ws.take k)).length = byteLength k := by
  rw [length_packAll, List.length_take, Nat.min_eq_left hk, byteLength_eq heven]

theorem packAll_eq_append : packAll ws = packAll (ws.take k) ++ packAll (ws.drop k) := by
  rw [← packAll_append, List.take_append_drop]
  rwa [List.length_take, Nat.min_eq_left hk]

/-- The bytes of the first words of a run are its first bytes. -/
theorem packAll_take : packAll (ws.take k) = (packAll ws).take (byteLength k) := by
  rw [packAll_eq_append heven hk, List.take_left' (length_packAll_take heven hk)]

/-- The bytes of the other words are the other bytes. -/
theorem packAll_drop : packAll (ws.drop k) = (packAll ws).drop (byteLength k) := by
  rw [packAll_eq_append heven hk, List.drop_left' (length_packAll_take heven hk)]

end Parts

/-- What was packed is unpacked again, all of it or any even part, wherever there is room for it. -/
theorem into_unpacking_of_packed {words dst : Array Word} {bytes after : Array UInt8}
    {wordOffset count byteOffset moved first extent offset : Nat}
    (hpacked : (packing words wordOffset count byteOffset).into bytes = (.ok moved, after))
    (hfirst : first % 2 = 0) (hextent : extent % 2 = 0) (hpart : first + extent ≤ count)
    (hroom : Part.Inside ⟨.words, offset, extent, dst.size⟩) :
    ∃ restored, (unpacking after (byteOffset + byteLength first) extent offset).into dst =
        (.ok (byteLength extent), restored) ∧
      Overwritten dst offset (slice words (wordOffset + first) extent) restored := by
  have hfaithful := faithful_packing words wordOffset count byteOffset bytes
  obtain ⟨heven, hsource, htarget⟩ := hfaithful.ok_iff.1 ⟨moved, by rw [hpacked]⟩
  obtain ⟨-, xs, hxs, hlength, hwritten⟩ := hfaithful.of_ok hpacked
  have hcount : (slice words wordOffset count).length = count := length_slice hsource.2
  obtain rfl : packAll (slice words wordOffset count) = xs := by
    rw [encode, hcount, if_pos heven] at hxs
    exact Except.ok.inj hxs
  have hbytes : byteLength first + byteLength extent ≤ byteLength count := by
    rw [byteLength_eq hfirst, byteLength_eq hextent, byteLength_eq heven]
    omega
  -- the part of the bytes that is read is that of the words of the part
  have hread : slice after (byteOffset + byteLength first) (byteLength extent) =
      packAll (slice words (wordOffset + first) extent) := by
    rw [hwritten.slice_eq (by rwa [hlength]), ← packAll_drop hfirst (by omega),
      ← packAll_take hextent (by rw [List.length_drop]; omega), take_drop_slice words wordOffset hpart]
  have hinside : Part.Inside
      ⟨.bytes, byteOffset + byteLength first, byteLength extent, after.size⟩ := by
    have htold : byteOffset + byteLength count ≤ maxOffset := htarget.1
    have hfits : byteOffset + byteLength count ≤ after.size := hwritten.size_eq ▸ htarget.2
    exact ⟨by dsimp only; omega, by dsimp only; omega⟩
  have hwords : (slice words (wordOffset + first) extent).length = extent := by
    have hfits : wordOffset + count ≤ words.size := hsource.2
    exact length_slice (by omega)
  refine ⟨overlay dst offset (slice words (wordOffset + first) extent), ?_, overwritten_overlay ?_⟩
  · rw [into_unpacking, hread, unpackAll_packAll (by rwa [hwords]),
      outcome_of_inside hextent hinside hroom]
  · rw [hwords]
    exact hroom.2

/-- **Partial transfers agree with whole ones and touch nothing else.**  Both directions are faithful to
packing and unpacking the whole of a run, and what was packed is unpacked again, all of it or any even
part. -/
theorem transfers_faithful :
    (∀ (words : Array Word) (wordOffset count byteOffset : Nat) (bytes : Array UInt8),
      Faithful (packing words wordOffset count byteOffset) bytes count
        ⟨.words, wordOffset, count, words.size⟩ ⟨.bytes, byteOffset, byteLength count, bytes.size⟩
        (encode (slice words wordOffset count))) ∧
    (∀ (bytes : Array UInt8) (byteOffset count wordOffset : Nat) (words : Array Word),
      Faithful (unpacking bytes byteOffset count wordOffset) words count
        ⟨.bytes, byteOffset, byteLength count, bytes.size⟩ ⟨.words, wordOffset, count, words.size⟩
        (decode (slice bytes byteOffset (byteLength count)))) ∧
    ∀ (words : Array Word) (wordOffset count byteOffset moved : Nat) (bytes after : Array UInt8),
      (packing words wordOffset count byteOffset).into bytes = (.ok moved, after) →
      ∀ first extent, first % 2 = 0 → extent % 2 = 0 → first + extent ≤ count →
      ∀ (dst : Array Word) (offset : Nat), Part.Inside ⟨.words, offset, extent, dst.size⟩ →
        ∃ restored, (unpacking after (byteOffset + byteLength first) extent offset).into dst =
            (.ok (byteLength extent), restored) ∧
          Overwritten dst offset (slice words (wordOffset + first) extent) restored := by
  refine ⟨faithful_packing, faithful_unpacking, ?_⟩
  intro words wordOffset count byteOffset moved bytes after hpacked first extent hfirst hextent hpart
    dst offset hroom
  exact into_unpacking_of_packed hpacked hfirst hextent hpart hroom

/-- The two words in the middle of four, packed behind three bytes and unpacked behind four words. -/
theorem transfers_faithful_middle :
    (packing #[1, 0o123456712345, 0o076543210000, 2] 1 2 3).into (Array.replicate 12 0xEE) =
      (.ok 9, #[0xEE, 0xEE, 0xEE, 0x29, 0xCB, 0xB9, 0x4E, 0x51, 0xF5, 0x8D, 0x10, 0x00]) ∧
    ∃ restored,
      (unpacking #[0xEE, 0xEE, 0xEE, 0x29, 0xCB, 0xB9, 0x4E, 0x51, 0xF5, 0x8D, 0x10, 0x00]
          (3 + byteLength 0) 2 4).into (Array.replicate 6 0) = (.ok (byteLength 2), restored) ∧
        Overwritten (Array.replicate 6 0) 4
          (slice #[1, 0o123456712345, 0o076543210000, 2] (1 + 0) 2) restored := by
  have hpacked : (packing #[1, 0o123456712345, 0o076543210000, 2] 1 2 3).into
        (Array.replicate 12 0xEE) =
      (.ok 9, #[0xEE, 0xEE, 0xEE, 0x29, 0xCB, 0xB9, 0x4E, 0x51, 0xF5, 0x8D, 0x10, 0x00]) := by rfl
  exact ⟨hpacked, transfers_faithful.2.2 _ 1 2 3 9 _ _ hpacked 0 2 (by decide) (by decide) (by decide)
    (Array.replicate 6 0) 4 (by decide)⟩

/-- An offset at the very end of what can be told is as good as outside. -/
example : (packing #[1, 2] 0 2 maxOffset).into (Array.replicate 9 0) =
    (.error (.rangeExceedsBuffer .bytes maxOffset 9 9), Array.replicate 9 0) := rfl

end Packed

end FileDirectory
