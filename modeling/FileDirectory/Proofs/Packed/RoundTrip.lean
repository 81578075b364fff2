/-
**Packing and unpacking lose nothing.**

Words and bytes are both told by their streams of bits, which packing and unpacking leave alone.  So a
run of an even number of words is what its packed form unpacks to, and whole groups of nine bytes are
the packed form of the words in them.

Main results:

* `FileDirectory.Packed.unpackAll_packAll` — a run of an even number of words unpacks to itself;
* `FileDirectory.Packed.packAll_unpackAll` — whole groups of bytes are packed again as they were;
* `FileDirectory.Packed.encode_decode_streams` — the packed format is a bijection between the two, bit
  by bit, and everything else is refused.
-/

import FileDirectory.Proofs.Packed.Stream

set_option autoImplicit false

namespace FileDirectory.Packed

/-! ### Whole runs -/

/-- A run of an even number of words is what its packed form unpacks to. -/
theorem unpackAll_packAll {ws : List Word} (h : ws.length % 2 = 0) :
    unpackAll (packAll ws) = ws := by
  have hwhole : (packAll ws).length % 9 = 0 := by rw [length_packAll, Nat.mul_mod_right]
  refine stream_injective (by decide) ?_
  rw [stream_unpackAll hwhole, byteStream_packAll h]

/-- Whole groups of nine bytes are the packed form of the words in them, of which there is an even
number. -/
theorem packAll_unpackAll {bs : List UInt8} (h : bs.length % 9 = 0) :
    packAll (unpackAll bs) = bs ∧ (unpackAll bs).length % 2 = 0 := by
  have heven : (unpackAll bs).length % 2 = 0 := by rw [length_unpackAll, Nat.mul_mod_right]
  refine ⟨byteStream_injective ?_, heven⟩
  rw [byteStream_packAll heven, stream_unpackAll h]

/-- **The packed format is a bijection.**  Every even number of words is encoded, two words in nine
bytes, and whole groups of nine bytes are decoded; each undoes the other, and the bits of the words are
those of the bytes, in order from the most significant end.  Everything else is refused. -/
theorem encode_decode_streams :
    (∀ ws : List Word, ws.length % 2 = 0 →
      ∃ bs, encode ws = .ok bs ∧ bs.length = ws.length * 9 / 2 ∧ decode bs = .ok ws ∧
        byteStream bs = stream ws) ∧
    (∀ bs : List UInt8, bs.length % 9 = 0 →
      ∃ ws, decode bs = .ok ws ∧ (∀ w ∈ ws, w.toNat ≤ Word.maxValue) ∧ encode ws = .ok bs ∧
        stream ws = byteStream bs) ∧
    (∀ ws : List Word, ws.length % 2 ≠ 0 → encode ws = .error (.lengthNotEven ws.length)) ∧
    ∀ bs : List UInt8, bs.length % 9 ≠ 0 → decode bs = .error (.notWholeBlocks bs.length) := by
  refine ⟨fun ws h => ?_, fun bs h => ?_, fun ws h => if_neg h, fun bs h => if_neg h⟩
  · have hlength := length_packAll ws
    have hwhole : (packAll ws).length % 9 = 0 := by rw [hlength, Nat.mul_mod_right]
    refine ⟨packAll ws, if_pos h, by omega, ?_, byteStream_packAll h⟩
    rw [decode, if_pos hwhole, unpackAll_packAll h]
  · obtain ⟨hbytes, heven⟩ := packAll_unpackAll h
    refine ⟨unpackAll bs, if_pos h, fun w _ => Nat.le_of_lt_succ w.isLt, ?_, stream_unpackAll h⟩
    rw [encode, if_pos heven, hbytes]

/-- Two words, nine bytes, one word and ten bytes. -/
theorem encode_decode_streams_pair :
    (∃ bs, encode [0o123456712345, 0o076543210000] = .ok bs ∧ bs.length = 2 * 9 / 2 ∧
      decode bs = .ok [0o123456712345, 0o076543210000] ∧
      byteStream bs = stream ([0o123456712345, 0o076543210000] : List Word)) ∧
    (∃ ws, decode [0x29, 0xCB, 0xB9, 0x4E, 0x51, 0xF5, 0x8D, 0x10, 0x00] = .ok ws ∧
      (∀ w ∈ ws, w.toNat ≤ Word.maxValue) ∧
      encode ws = .ok [0x29, 0xCB, 0xB9, 0x4E, 0x51, 0xF5, 0x8D, 0x10, 0x00] ∧
      stream ws = byteStream [0x29, 0xCB, 0xB9, 0x4E, 0x51, 0xF5, 0x8D, 0x10, 0x00]) ∧
    encode [1] = .error (.lengthNotEven 1) ∧
    decode (List.replicate 10 0) = .error (.notWholeBlocks 10) :=
  ⟨encode_decode_streams.1 _ (by decide), encode_decode_streams.2.1 _ (by decide),
    encode_decode_streams.2.2.1 _ (by decide), encode_decode_streams.2.2.2 _ (by decide)⟩

/-- The fifth byte is shared by both words of a pair. -/
example : encode [0o17, 0o740000000000] = .ok [0, 0, 0, 0, 0xFF, 0, 0, 0, 0] := rfl

end FileDirectory.Packed
