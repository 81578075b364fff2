/-
**Packed words bit by bit.**

Read from its most significant end, every word is a run of thirty-six bits and every byte one of eight.
The words of a packed sequence, one after another, and its bytes, one after another, are the same run of
bits.  That is all there is to the format: each byte is cut out of this run, the fifth one of a group
across the border between two words.

Main definitions:

* `FileDirectory.Packed.bits` — the bits of a word or a byte, most significant first;
* `FileDirectory.Packed.stream`, `FileDirectory.Packed.byteStream` — the bits of words and of bytes, one
  after another.

Main results:

* `FileDirectory.Packed.getElem?_stream` — where a bit of words stands in their stream;
* `FileDirectory.Packed.stream_injective` — words are told by their stream;
* `FileDirectory.Packed.byteStream_packAll`, `FileDirectory.Packed.stream_unpackAll` — packing and
  unpacking leave the stream as it is.
-/

import FileDirectory.Packed

set_option autoImplicit false

namespace FileDirectory.Packed

/-! ### Runs of bits -/

/-- The bits of a word or a byte, most significant first. -/
def bits {w : Nat} (x : BitVec w) : List Bool := (List.range w).map x.getMsbD

/-- The bits of words, one word after another. -/
def stream {w : Nat} (xs : List (BitVec w)) : List Bool := xs.flatMap bits

/-- The bits of bytes, one byte after another. -/
def byteStream (bs : List UInt8) : List Bool := stream (bs.map UInt8.toBitVec)

section Bits

variable {w m n : Nat}

@[simp] theorem length_bits (x : BitVec w) : (bits x).length = w := by simp [bits]

@[simp] theorem getElem_bits (x : BitVec w) (i : Nat) (h : i < (bits x).length) :
    (bits x)[i] = x.getMsbD i := by simp [bits]

theorem bits_injective {x y : BitVec w} (h : bits x = bits y) : x = y := by
  refine BitVec.eq_of_getMsbD_eq fun i hi => ?_
  rw [← getElem_bits x i (by simpa), ← getElem_bits y i (by simpa)]
  simp only [h]

theorem bits_append (x : BitVec m) (y : BitVec n) : bits (x ++ y) = bits x ++ bits y := by
  refine List.ext_getElem (by simp) fun i h₁ h₂ => ?_
  rw [getElem_bits, BitVec.getMsbD_append, List.getElem_append]
  simp only [length_bits, getElem_bits]
  by_cases hi : i < m
  · rw [if_neg (Nat.not_le.2 hi), dif_pos hi]
  · rw [if_pos (Nat.not_lt.1 hi), dif_neg hi]

/-- A run of bits is cut in two. -/
theorem bits_extract_add (x : BitVec w) (start m n : Nat) :
    bits (x.extractLsb' start (m + n)) =
      bits (x.extractLsb' (start + n) m) ++ bits (x.extractLsb' start n) := by
  rw [← bits_append, BitVec.extractLsb'_append_extractLsb'_eq_extractLsb' rfl]

@[simp] theorem stream_nil : stream ([] : List (BitVec w)) = [] := rfl

theorem stream_cons (x : BitVec w) (xs : List (BitVec w)) :
    stream (x :: xs) = bits x ++ stream xs := List.flatMap_cons

theorem stream_append (xs ys : List (BitVec w)) :
    stream (xs ++ ys) = stream xs ++ stream ys := List.flatMap_append

theorem length_stream (xs : List (BitVec w)) : (stream xs).length = xs.length * w := by
  induction xs with
  | nil => simp
  | cons x xs ih => simp [stream_cons, ih, Nat.succ_mul, Nat.add_comm]

/-- Counted from the most significant end, a bit of a stream is a bit of the word that it falls
into. -/
theorem getElem?_stream (hw : 0 < w) (xs : List (BitVec w)) (i : Nat) :
    (stream xs)[i]? = xs[i / w]?.map fun x => x.getMsbD (i % w) := by
  induction xs generalizing i with
  | nil => simp
  | cons x xs ih =>
      rw [stream_cons]
      by_cases hi : i < w
      · have hlength : i < (bits x).length := by rwa [length_bits]
        rw [List.getElem?_append_left hlength, List.getElem?_eq_getElem hlength, getElem_bits,
          Nat.div_eq_of_lt hi, Nat.mod_eq_of_lt hi]
        rfl
      · have hge : w ≤ i := Nat.not_lt.1 hi
        rw [List.getElem?_append_right (by rwa [length_bits]), length_bits, ih,
          Nat.div_eq_sub_div hw hge, Nat.mod_eq_sub_mod hge, List.getElem?_cons_succ]

/-- **Words are told by their stream.** -/
theorem stream_injective (hw : 0 < w) {xs ys : List (BitVec w)} (h : stream xs = stream ys) :
    xs = ys := by
  have hlength : xs.length = ys.length := by
    have hstreams := congrArg List.length h
    rw [length_stream, length_stream] at hstreams
    exact Nat.eq_of_mul_eq_mul_right hw hstreams
  induction xs generalizing ys with
  | nil => exact (List.length_eq_zero_iff.1 hlength.symm).symm
  | cons x xs ih =>
      cases ys with
      | nil => cases hlength
      | cons y ys =>
          rw [stream_cons, stream_cons] at h
          obtain ⟨hx, hxs⟩ := List.append_inj h (by simp)
          rw [bits_injective hx, ih hxs (Nat.succ.inj hlength)]

end Bits

theorem byteStream_append (bs cs : List UInt8) :
    byteStream (bs ++ cs) = byteStream bs ++ byteStream cs := by
  rw [byteStream, List.map_append, stream_append, byteStream, byteStream]

theorem byteStream_injective {bs cs : List UInt8} (h : byteStream bs = byteStream cs) : bs = cs :=
  (List.map_inj_right fun _ _ => UInt8.eq_of_toBitVec_eq).1 (stream_injective (by decide) h)

/-! ### Cutting words and bytes -/

/-- The first word of a pair is cut into four bytes, four of its bits being left over. -/
theorem bits_eq_first (a : Word) :
    bits a = bits (a.extractLsb' 28 8) ++ (bits (a.extractLsb' 20 8) ++
      (bits (a.extractLsb' 12 8) ++ (bits (a.extractLsb' 4 8) ++ bits (a.extractLsb' 0 4)))) := by
  have h₁ : bits (a.extractLsb' 0 36) = _ := bits_extract_add a 0 8 28
  have h₂ : bits (a.extractLsb' 0 28) = _ := bits_extract_add a 0 8 20
  have h₃ : bits (a.extractLsb' 0 20) = _ := bits_extract_add a 0 8 12
  have h₄ : bits (a.extractLsb' 0 12) = _ := bits_extract_add a 0 8 4
  rw [← h₄, ← h₃, ← h₂, ← h₁, BitVec.extractLsb'_eq_self]

/-- The second word of a pair is cut into four bytes after its first four bits. -/
theorem bits_eq_second (b : Word) :
    bits b = bits (b.extractLsb' 32 4) ++ (bits (b.extractLsb' 24 8) ++
      (bits (b.extractLsb' 16 8) ++ (bits (b.extractLsb' 8 8) ++ bits (b.extractLsb' 0 8)))) := by
  have h₁ : bits (b.extractLsb' 0 36) = _ := bits_extract_add b 0 4 32
  have h₂ : bits (b.extractLsb' 0 32) = _ := bits_extract_add b 0 8 24
  have h₃ : bits (b.extractLsb' 0 24) = _ := bits_extract_add b 0 8 16
  have h₄ : bits (b.extractLsb' 0 16) = _ := bits_extract_add b 0 8 8
  rw [← h₄, ← h₃, ← h₂, ← h₁, BitVec.extractLsb'_eq_self]

theorem bits_eq_shared (b : UInt8) :
    bits b.toBitVec = bits (b.toBitVec.extractLsb' 4 4) ++ bits (b.toBitVec.extractLsb' 0 4) := by
  have h : bits (b.toBitVec.extractLsb' 0 8) = _ := bits_extract_add b.toBitVec 0 4 4
  rw [← h, BitVec.extractLsb'_eq_self]

/-! ### One pair -/

theorem toBitVec_lowByte_shift (w : Word) (k : Nat) :
    (lowByte (w >>> k)).toBitVec = w.extractLsb' k 8 := by
  ext i hi
  simp [lowByte]

theorem toBitVec_lowByte (w : Word) : (lowByte w).toBitVec = w.extractLsb' 0 8 :=
  toBitVec_lowByte_shift w 0

theorem getLsbD_and_fifteen (w : Word) (i : Nat) :
    (w &&& 0xF).getLsbD i = (decide (i < 4) && w.getLsbD i) := by
  have hmask : (0xF : Word) = (BitVec.allOnes 4).setWidth 36 := rfl
  rw [hmask, BitVec.getLsbD_and, BitVec.getLsbD_setWidth, BitVec.getLsbD_allOnes, Bool.and_comm]
  by_cases hi : i < 4
  · have hlt : i < 36 := Nat.lt_trans hi (by decide)
    simp [hi, hlt]
  · simp [hi]

/-- The byte that two words share. -/
theorem toBitVec_lowByte_shared (a b : Word) :
    (lowByte ((a &&& 0xF) <<< 4 ||| b >>> 32)).toBitVec =
      (a.extractLsb' 0 4 ++ b.extractLsb' 32 4 : BitVec 8) := by
  refine BitVec.eq_of_getLsbD_eq fun i hi => ?_
  rw [lowByte, UInt8.toBitVec_ofBitVec, BitVec.getLsbD_setWidth, decide_eq_true hi, Bool.true_and]
  simp only [BitVec.getLsbD_or, BitVec.getLsbD_shiftLeft, getLsbD_and_fifteen,
    BitVec.getLsbD_ushiftRight, BitVec.getLsbD_append, BitVec.getLsbD_extractLsb']
  grind

section Pair

variable (b₀ b₁ b₂ b₃ b₄ b₅ b₆ b₇ b₈ : UInt8)

/-- The first word of nine bytes is four of them and the upper half of the fifth. -/
theorem unpackPair_fst :
    (unpackPair b₀ b₁ b₂ b₃ b₄ b₅ b₆ b₇ b₈).1 =
      (b₀.toBitVec ++ (b₁.toBitVec ++ (b₂.toBitVec ++
        (b₃.toBitVec ++ b₄.toBitVec.extractLsb' 4 4))) : BitVec 36) := by
  refine BitVec.eq_of_getLsbD_eq fun i hi => ?_
  simp only [unpackPair, ofByte, BitVec.getLsbD_or, BitVec.getLsbD_shiftLeft,
    BitVec.getLsbD_ushiftRight, BitVec.getLsbD_setWidth, BitVec.getLsbD_append,
    BitVec.getLsbD_extractLsb']
  grind

/-- The second word of nine bytes is the lower half of the fifth and the four after it. -/
theorem unpackPair_snd :
    (unpackPair b₀ b₁ b₂ b₃ b₄ b₅ b₆ b₇ b₈).2 =
      (b₄.toBitVec.extractLsb' 0 4 ++ (b₅.toBitVec ++ (b₆.toBitVec ++
        (b₇.toBitVec ++ b₈.toBitVec))) : BitVec 36) := by
  refine BitVec.eq_of_getLsbD_eq fun i hi => ?_
  simp only [unpackPair, ofByte, BitVec.getLsbD_or, BitVec.getLsbD_shiftLeft, getLsbD_and_fifteen,
    BitVec.getLsbD_setWidth, BitVec.getLsbD_append, BitVec.getLsbD_extractLsb']
  grind

/-- The pair of words in nine bytes has their bits. -/
theorem stream_unpackPair :
    stream [(unpackPair b₀ b₁ b₂ b₃ b₄ b₅ b₆ b₇ b₈).1,
        (unpackPair b₀ b₁ b₂ b₃ b₄ b₅ b₆ b₇ b₈).2] =
      byteStream [b₀, b₁, b₂, b₃, b₄, b₅, b₆, b₇, b₈] := by
  simp only [byteStream, List.map_cons, List.map_nil, stream_cons, stream_nil, unpackPair_fst,
    unpackPair_snd, bits_append, bits_eq_shared b₄, List.append_assoc]

end Pair

/-- The nine bytes of a pair of words have its bits. -/
theorem byteStream_packPair (a b : Word) : byteStream (packPair a b) = stream [a, b] := by
  simp only [byteStream, packPair, List.map_cons, List.map_nil, stream_cons, stream_nil,
    toBitVec_lowByte_shift, toBitVec_lowByte_shared, toBitVec_lowByte b, bits_append]
  rw [bits_eq_first a, bits_eq_second b]
  simp only [List.append_assoc]

/-! ### Whole runs -/

/-- **Packing leaves the bits of words as they are**, if there is an even number of words. -/
theorem byteStream_packAll {ws : List Word} (h : ws.length % 2 = 0) :
    byteStream (packAll ws) = stream ws := by
  fun_induction packAll ws with
  | case1 a b ws ih =>
      rw [byteStream_append, byteStream_packPair, ih (by simp at h; omega), ← stream_append]
      rfl
  | case2 ws hws =>
      rcases ws with _ | ⟨a, _ | ⟨b, ws⟩⟩
      · rfl
      · simp at h
      · exact absurd rfl (hws a b ws)

/-- What has no nine bytes in front is shorter than that. -/
theorem length_lt_nine {bs : List UInt8}
    (h : ∀ b₀ b₁ b₂ b₃ b₄ b₅ b₆ b₇ b₈ rest,
      bs = b₀ :: b₁ :: b₂ :: b₃ :: b₄ :: b₅ :: b₆ :: b₇ :: b₈ :: rest → False) :
    bs.length < 9 := by
  rcases bs with _ | ⟨b₀, _ | ⟨b₁, _ | ⟨b₂, _ | ⟨b₃, _ | ⟨b₄, _ | ⟨b₅, _ | ⟨b₆, _ | ⟨b₇, _ |
    ⟨b₈, bs⟩⟩⟩⟩⟩⟩⟩⟩⟩
  iterate 9 · simp
  · exact (h b₀ b₁ b₂ b₃ b₄ b₅ b₆ b₇ b₈ bs rfl).elim

/-- **So does unpacking** whole groups of nine bytes. -/
theorem stream_unpackAll {bs : List UInt8} (h : bs.length % 9 = 0) :
    stream (unpackAll bs) = byteStream bs := by
  fun_induction unpackAll bs with
  | case1 b₀ b₁ b₂ b₃ b₄ b₅ b₆ b₇ b₈ bs pair ih =>
      have hpair := stream_unpackPair b₀ b₁ b₂ b₃ b₄ b₅ b₆ b₇ b₈
      have hwords : stream (pair.1 :: pair.2 :: unpackAll bs) =
          stream [pair.1, pair.2] ++ stream (unpackAll bs) := stream_append [pair.1, pair.2] _
      rw [hwords, hpair, ih (by simp at h; omega), ← byteStream_append]
      rfl
  | case2 bs hbs =>
      have hshort := length_lt_nine hbs
      rw [List.length_eq_zero_iff.1 (show bs.length = 0 by omega)]
      rfl

/-- Nine bytes make two words. -/
theorem length_unpackAll (bs : List UInt8) : (unpackAll bs).length = 2 * (bs.length / 9) := by
  fun_induction unpackAll bs with
  | case1 b₀ b₁ b₂ b₃ b₄ b₅ b₆ b₇ b₈ bs pair ih =>
      simp only [List.length_cons, ih]
      omega
  | case2 bs hbs => simp [Nat.div_eq_of_lt (length_lt_nine hbs)]

end FileDirectory.Packed
