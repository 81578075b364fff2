/-
**Words and their texts.**

Words read as text and written again are the same words, if each of their fields holds the code of its
character: the spaces that reading drops are put back.  A text that fits into the words and has no
character that is folded is read back as it was written.

Main definitions:

* `FileDirectory.Coding.Lawful` — what is expected of a way of writing text in words;
* `FileDirectory.Coding.Legible` — a word whose fields are the codes of their characters;
* `FileDirectory.Coding.Keeps` — a character that its code stands for.

Main results:

* `FileDirectory.Coding.Lawful.encode_decode` — legible words survive being read as text;
* `FileDirectory.Coding.Lawful.decode_encode` — a text that fits survives being written in words.
-/

import FileDirectory.Proofs.Text.Bytes
import FileDirectory.Proofs.Word.Join
import FileDirectory.Text.Coding
import Mathlib.Data.List.TakeWhile

set_option autoImplicit false

namespace FileDirectory

/-! ### Trailing spaces -/

/-- A text is what is left of it without its trailing spaces, and those spaces. -/
theorem trimSpaces_append (cs : List Char) :
    ∃ n, cs = trimSpaces cs ++ List.replicate n ' ' := by
  refine ⟨(cs.reverse.takeWhile (· = ' ')).length, ?_⟩
  have hspaces : cs.reverse.takeWhile (· = ' ') =
      List.replicate (cs.reverse.takeWhile (· = ' ')).length ' ' := by
    refine List.eq_replicate_iff.2 ⟨rfl, ?_⟩
    intro c hc
    exact of_decide_eq_true (List.mem_takeWhile_imp (p := fun c => decide (c = ' ')) hc)
  have hsplit := congrArg List.reverse (List.takeWhile_append_dropWhile (p := (· = ' '))
    (l := cs.reverse))
  rw [List.reverse_append, List.reverse_reverse] at hsplit
  have hreverse := congrArg List.reverse hspaces
  rw [List.reverse_replicate] at hreverse
  rw [← hreverse]
  exact hsplit.symm

/-- A text without spaces is what is left when spaces are appended and dropped again. -/
theorem trimSpaces_of_notMem {cs : List Char} (h : ' ' ∉ cs) (n : Nat) :
    trimSpaces (cs ++ List.replicate n ' ') = cs := by
  have hall : ∀ c ∈ List.replicate n ' ', (decide (c = ' ')) = true := by
    intro c hc
    exact decide_eq_true (List.eq_of_mem_replicate hc)
  have hstop : cs.reverse.dropWhile (· = ' ') = cs.reverse := by
    refine List.dropWhile_eq_self_iff.2 ?_
    intro hlt hfirst
    refine h (List.mem_reverse.1 ?_)
    rw [← of_decide_eq_true hfirst]
    exact List.getElem_mem hlt
  rw [trimSpaces, List.reverse_append, List.reverse_replicate, List.dropWhile_append_of_pos hall,
    hstop, List.reverse_reverse]

namespace Coding

/-! ### What is expected of a coding -/

/-- The byte of a space. -/
def blank : UInt8 := UInt8.ofNat (' ').toNat

/-- The fields divide a word and have room for every code, and the code that fills unused places is
that of a space. -/
structure Lawful (k : Coding) : Prop where
  divides : Word.Divides k.fields
  code_lt : ∀ f ∈ k.fields, ∀ b, k.code b < 2 ^ f.width
  code_blank : k.code blank = k.space
  character_space : k.character k.space = ' '

/-- Each field of a word is the code of its character, and the character is one byte. -/
def Legible (k : Coding) (w : Word) : Prop :=
  ∀ value ∈ w.split k.fields,
    (k.character value).toNat < 128 ∧ k.code (UInt8.ofNat (k.character value).toNat) = value

/-- A character other than the space that is one byte and that its code stands for. -/
def Keeps (k : Coding) (c : Char) : Prop :=
  c.toNat < 128 ∧ c ≠ ' ' ∧ k.character (k.code (UInt8.ofNat c.toNat)) = c

variable {k : Coding}

/-! ### Words and their characters -/

/-- The codes of the bytes of a word, the rest filled with spaces. -/
theorem word_congr {bs cs : List UInt8}
    (h : (bs.map k.code ++ List.replicate k.fields.length k.space).take k.fields.length =
      (cs.map k.code ++ List.replicate k.fields.length k.space).take k.fields.length) :
    k.word bs = k.word cs := by
  have htake : ∀ bytes : List UInt8,
      ((bytes.take k.fields.length).map k.code ++
          List.replicate k.fields.length k.space).take k.fields.length =
        (bytes.map k.code ++ List.replicate k.fields.length k.space).take k.fields.length := by
    intro bytes
    rw [List.map_take, List.take_append, List.take_append, List.take_take, Nat.min_self,
      List.length_take, List.length_map]
    congr 1
    congr 1
    omega
  refine Word.join_congr ?_
  rw [htake, htake, h]

theorem length_characterList (w : Word) : (k.characterList w).length = k.fields.length := by
  rw [characterList, List.length_map, Word.length_split]

section Lawful

variable (h : k.Lawful)

include h

/-- Spaces at the end make no difference to a word. -/
theorem Lawful.word_append_blanks (bs : List UInt8) (n : Nat) :
    k.word (bs ++ List.replicate n blank) = k.word bs := by
  refine word_congr ?_
  rw [List.map_append, List.map_replicate, h.code_blank, List.append_assoc,
    List.replicate_append_replicate, List.take_append, List.take_append, List.take_replicate,
    List.take_replicate]
  congr 2
  omega

/-- Spaces at the end make no difference to words. -/
theorem Lawful.words_append_blanks (count : Nat) (bs : List UInt8) (n : Nat) :
    k.words count (bs ++ List.replicate n blank) = k.words count bs := by
  induction count generalizing bs n with
  | zero => rfl
  | succ count ih =>
      rw [words, words, h.word_append_blanks, List.drop_append, List.drop_replicate, ih]

/-- The bytes of the characters of a legible word make the word. -/
theorem Lawful.word_characterList {w : Word} (hw : k.Legible w) (bs : List UInt8) :
    k.word (((k.characterList w).map fun c => UInt8.ofNat c.toNat) ++ bs) = w := by
  have hcodes : ((k.characterList w).map fun c => UInt8.ofNat c.toNat).map k.code =
      w.split k.fields := by
    rw [characterList, List.map_map, List.map_map]
    exact (List.map_congr_left fun value hvalue => (hw value hvalue).2).trans (List.map_id _)
  have hlength : ((k.characterList w).map fun c => UInt8.ofNat c.toNat).length =
      k.fields.length := (List.length_map _).trans (length_characterList w)
  rw [word, List.take_left' hlength, hcodes]
  refine (Word.join_congr ?_).trans (h.divides.join_split w)
  rw [List.take_left' (w.length_split _), List.take_of_length_le (w.length_split _).le]

/-- The bytes of the characters of legible words make the words. -/
theorem Lawful.words_characterList {ws : List Word} (hws : ∀ w ∈ ws, k.Legible w) :
    k.words ws.length ((ws.flatMap k.characterList).map fun c => UInt8.ofNat c.toNat) = ws := by
  induction ws with
  | nil => rfl
  | cons w ws ih =>
      obtain ⟨hw, hrest⟩ := List.forall_mem_cons.1 hws
      have hlength : ((k.characterList w).map fun c => UInt8.ofNat c.toNat).length =
          k.fields.length := (List.length_map _).trans (length_characterList w)
      rw [List.length_cons, words, List.flatMap_cons, List.map_append, h.word_characterList hw,
        List.drop_left' hlength, ih hrest]

/-- **Legible words survive being read as text.** -/
theorem Lawful.encode_decode {ws : List Word} (hws : ∀ w ∈ ws, k.Legible w) :
    k.encode (k.decode ws) ws.length = ws := by
  obtain ⟨n, hn⟩ := trimSpaces_append (ws.flatMap k.characterList)
  have hascii : ∀ c ∈ ws.flatMap k.characterList, c.toNat < 128 := by
    intro c hc
    obtain ⟨w, hw, hc⟩ := List.mem_flatMap.1 hc
    obtain ⟨value, hvalue, rfl⟩ := List.mem_map.1 hc
    exact (hws w hw value hvalue).1
  have htrim : ∀ c ∈ trimSpaces (ws.flatMap k.characterList), c.toNat < 128 := by
    intro c hc
    refine hascii c ?_
    rw [hn]
    exact List.mem_append_left _ hc
  have hbytes := congrArg (List.map fun c : Char => UInt8.ofNat c.toNat) hn
  rw [List.map_append, List.map_replicate] at hbytes
  rw [encode, decode, utf8_of_lt htrim, ← h.words_append_blanks _ _ n, blank, ← hbytes,
    h.words_characterList hws]

/-! ### Texts that fit -/

/-- The characters of a word are those of its bytes, the rest filled with spaces. -/
theorem Lawful.characterList_word (bs : List UInt8) :
    k.characterList (k.word bs) =
      (((bs.take k.fields.length).map k.code ++
        List.replicate k.fields.length k.space).take k.fields.length).map k.character := by
  have hlength : k.fields.length ≤ ((bs.take k.fields.length).map k.code ++
      List.replicate k.fields.length k.space).length := by
    rw [List.length_append, List.length_replicate]
    exact Nat.le_add_left _ _
  rw [characterList, word, Word.split_join_of_lt h.divides.disjoint hlength]
  intro f hf value hvalue
  rcases List.mem_append.1 hvalue with hvalue | hvalue
  · obtain ⟨b, -, rfl⟩ := List.mem_map.1 hvalue
    exact h.code_lt f hf b
  · rw [List.eq_of_mem_replicate hvalue, ← h.code_blank]
    exact h.code_lt f hf blank

/-- Bytes that fit into words are the characters of the words, which end in spaces. -/
theorem Lawful.flatMap_characterList_words (count : Nat) {bs : List UInt8}
    (hbs : bs.length ≤ k.fields.length * count) :
    ∃ n, (k.words count bs).flatMap k.characterList =
      (bs.map fun b => k.character (k.code b)) ++ List.replicate n ' ' := by
  induction count generalizing bs with
  | zero =>
      obtain rfl : bs = [] := List.length_eq_zero_iff.1 (Nat.le_zero.1 hbs)
      exact ⟨0, rfl⟩
  | succ count ih =>
      rw [Nat.mul_succ] at hbs
      obtain ⟨n, hn⟩ := @ih (bs.drop k.fields.length) (by rw [List.length_drop]; omega)
      rw [words, List.flatMap_cons, h.characterList_word, hn]
      by_cases hlong : k.fields.length ≤ bs.length
      · -- the word is full
        refine ⟨n, ?_⟩
        have htake : ((bs.take k.fields.length).map k.code).length = k.fields.length := by
          rw [List.length_map, List.length_take, Nat.min_eq_left hlong]
        rw [List.take_left' htake, List.map_map, ← List.append_assoc]
        congr 1
        have hsplit := congrArg (List.map (k.character ∘ k.code))
          (List.take_append_drop k.fields.length bs)
        rw [List.map_append] at hsplit
        exact hsplit
      · -- the word is filled up with spaces, and nothing is left for the others
        have hdrop : bs.drop k.fields.length = [] := List.drop_eq_nil_of_le (by omega)
        have htake : bs.take k.fields.length = bs := List.take_of_length_le (by omega)
        have hmin : min (k.fields.length - bs.length) k.fields.length =
            k.fields.length - bs.length := by omega
        refine ⟨k.fields.length - bs.length + n, ?_⟩
        rw [hdrop, htake, List.take_append, List.length_map, List.take_of_length_le (by
          rw [List.length_map]; omega), List.take_replicate, List.map_append, List.map_map,
          List.map_replicate, h.character_space, List.map_nil, List.nil_append, List.append_assoc,
          List.replicate_append_replicate, hmin]
        rfl

/-- **A text that fits survives being written in words**, if its characters are not folded. -/
theorem Lawful.decode_encode {s : String} (hs : ∀ c ∈ s.toList, k.Keeps c) {count : Nat}
    (hcount : s.toList.length ≤ k.fields.length * count) : k.decode (k.encode s count) = s := by
  have hbytes : utf8 s = s.toList.map fun c => UInt8.ofNat c.toNat := by
    have hascii := utf8_of_lt fun c hc => (hs c hc).1
    rwa [String.ofList_toList] at hascii
  have hlength : (utf8 s).length ≤ k.fields.length * count := by rwa [hbytes, List.length_map]
  obtain ⟨n, hn⟩ := h.flatMap_characterList_words count hlength
  have hself : (utf8 s).map (fun b => k.character (k.code b)) = s.toList := by
    rw [hbytes, List.map_map]
    exact (List.map_congr_left fun c hc => (hs c hc).2.2).trans (List.map_id _)
  have hspace : ' ' ∉ s.toList := fun hin => (hs _ hin).2.1 rfl
  rw [encode, decode, hn, hself, trimSpaces_of_notMem hspace, String.ofList_toList]

end Lawful

end Coding

end FileDirectory
