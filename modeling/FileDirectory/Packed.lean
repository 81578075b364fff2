/-
**The packed format.**

Disks and tapes hold words in pairs, the seventy-two bits of a pair in nine bytes, most significant
first.  Because words travel in pairs, a packed run has an even number of words and a whole number
of nine-byte groups.

Main definitions:

* `FileDirectory.Packed.packPair`, `FileDirectory.Packed.unpackPair` — one pair;
* `FileDirectory.Packed.encode`, `FileDirectory.Packed.decode` — whole runs;
* `FileDirectory.Packed.byteLength`, `FileDirectory.Packed.hostBlockBytes` — sizes.

Main results:

* `FileDirectory.Packed.length_packAll` — two words take nine bytes.
-/

import FileDirectory.Word

set_option autoImplicit false

namespace FileDirectory

/-- One of the two sides of a transfer. -/
inductive Packed.Side where
  | words
  | bytes
  deriving DecidableEq, Repr

/-- Why a transfer between words and packed bytes is refused.  A refused transfer moves nothing. -/
inductive Packed.Fault where
  /-- Words travel in pairs, so their number must be even. -/
  | lengthNotEven (count : Nat)
  /-- The part asked for runs off the end of one side. -/
  | rangeExceedsBuffer (side : Packed.Side) (offset needed available : Nat)
  /-- The bytes are not a whole number of groups. -/
  | notWholeBlocks (length : Nat)
  deriving DecidableEq, Repr

/-- The text of a fault. -/
def Packed.Fault.message : Packed.Fault → String
  | .lengthNotEven count => s!"word count {count} is not even"
  | .rangeExceedsBuffer side offset needed available =>
    let name := match side with
      | .words => "word"
      | .bytes => "byte"
    s!"{name} range at offset {offset} of length {needed} exceeds buffer of length {available}"
  | .notWholeBlocks length => s!"byte length {length} is not a multiple of 9"

namespace Packed

/-! ### Sizes -/

/-- The number of bytes that an even number of words takes. -/
def byteLength (words : Nat) : Nat := words * 9 / 2

/-- The block sizes, in words, that disks and tapes transfer. -/
def standardBlockSizes : List Nat := [28, 56, 112, 224, 448, 896, 1792]

/-- The size in bytes of the host block that carries a block of a standard size. -/
def hostBlockBytes (words : Nat) : Option Nat :=
  (standardBlockSizes.idxOf? words).map fun i => 128 <<< i

/-! ### One pair -/

/-- The lowest eight bits of a word. -/
def lowByte (w : Word) : UInt8 := .ofBitVec (w.setWidth 8)

/-- The nine bytes of a pair of words.  The fifth one has the lowest four bits of the first word and the
highest four of the second. -/
def packPair (a b : Word) : List UInt8 :=
  [lowByte (a >>> 28), lowByte (a >>> 20), lowByte (a >>> 12), lowByte (a >>> 4),
    lowByte ((a &&& 0xF) <<< 4 ||| b >>> 32),
    lowByte (b >>> 24), lowByte (b >>> 16), lowByte (b >>> 8), lowByte b]

@[simp] theorem length_packPair (a b : Word) : (packPair a b).length = 9 := rfl

/-- A byte as the lowest eight bits of a word. -/
def ofByte (b : UInt8) : Word := b.toBitVec.setWidth 36

/-- The pair of words in nine bytes. -/
def unpackPair (b₀ b₁ b₂ b₃ b₄ b₅ b₆ b₇ b₈ : UInt8) : Word × Word :=
  (ofByte b₀ <<< 28 ||| ofByte b₁ <<< 20 ||| ofByte b₂ <<< 12 ||| ofByte b₃ <<< 4 |||
      ofByte b₄ >>> 4,
    (ofByte b₄ &&& 0xF) <<< 32 ||| ofByte b₅ <<< 24 ||| ofByte b₆ <<< 16 ||| ofByte b₇ <<< 8 |||
      ofByte b₈)

/-! ### Whole runs -/

/-- The bytes of the pairs of a run of words; a last word without a partner is left out. -/
def packAll : List Word → List UInt8
  | a :: b :: ws => packPair a b ++ packAll ws
  | _ => []

@[simp] theorem packAll_nil : packAll [] = [] := rfl

@[simp] theorem packAll_cons_cons (a b : Word) (ws : List Word) :
    packAll (a :: b :: ws) = packPair a b ++ packAll ws := rfl

/-- Two words take nine bytes. -/
theorem length_packAll (ws : List Word) : (packAll ws).length = 9 * (ws.length / 2) := by
  fun_induction packAll ws with
  | case1 a b ws ih => simp [ih]; omega
  | case2 ws h =>
    match ws, h with
    | [], _ => rfl
    | [_], _ => simp
    | a :: b :: ws, h => exact absurd rfl (h a b ws)

/-- The words of the nine-byte groups of a run of bytes; a last part of a group is left out. -/
def unpackAll : List UInt8 → List Word
  | b₀ :: b₁ :: b₂ :: b₃ :: b₄ :: b₅ :: b₆ :: b₇ :: b₈ :: bs =>
    let pair := unpackPair b₀ b₁ b₂ b₃ b₄ b₅ b₆ b₇ b₈
    pair.1 :: pair.2 :: unpackAll bs
  | _ => []

@[simp] theorem unpackAll_nil : unpackAll [] = [] := rfl

/-- The packed form of a run of words, if their number is even. -/
def encode (ws : List Word) : Except Fault (List UInt8) :=
  if ws.length % 2 = 0 then .ok (packAll ws) else .error (.lengthNotEven ws.length)

/-- The words of packed bytes, if they are whole groups. -/
def decode (bs : List UInt8) : Except Fault (List Word) :=
  if bs.length % 9 = 0 then .ok (unpackAll bs) else .error (.notWholeBlocks bs.length)

end Packed

end FileDirectory
