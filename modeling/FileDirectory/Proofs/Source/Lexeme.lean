/-
**Where lexemes stand.**

The lexemes of a text stand one after another, each as long as it can be, and what is between them is
white or a comment.  A comment goes from a period to the end of the line.  A symbol is met where one
starts that is neither in a comment nor within another symbol.

These notions are told of a piece of a text and of what follows it, so that two pieces, one after the
other, can be put together.

Main definitions:

* `FileDirectory.Source.InComment`, `FileDirectory.Source.InSymbol` — where a text breaks off;
* `FileDirectory.Source.Ends` — what a piece of a text breaks off in ends there;
* `FileDirectory.Source.MeetsSymbol` — a symbol that is met;
* `FileDirectory.Source.Spells`, `FileDirectory.Source.Lexeme.Stands` — a lexeme and its bytes;
* `FileDirectory.Source.Partition` — the lexemes of a piece of a text, and what is between them;
* `FileDirectory.Source.Passed` — a piece of a text that can be left behind.

Main results:

* `FileDirectory.Source.Partition.append`, `FileDirectory.Source.Passed.append` — pieces are put
  together;
* `FileDirectory.Source.Passed.meets` — symbols that are met in what follows.
-/

import FileDirectory.Proofs.Source.Literal
import FileDirectory.Proofs.Text.Bytes
import FileDirectory.Source.Lexeme

set_option autoImplicit false

namespace FileDirectory.Source

/-! ### Where a text breaks off -/

/-- There is a byte of one kind after which there are bytes of another kind only. -/
def Trails (p q : UInt8 → Prop) (bs : List UInt8) : Prop :=
  ∃ before b after, bs = before ++ b :: after ∧ p b ∧ ∀ c ∈ after, q c

section Trails

variable {p q : UInt8 → Prop} {as bs : List UInt8}

theorem Trails.exists_mem (h : Trails p q bs) : ∃ b ∈ bs, p b := by
  obtain ⟨before, b, after, rfl, hb, -⟩ := h
  exact ⟨b, by simp, hb⟩

theorem not_trails_nil : ¬Trails p q [] := fun h => by
  obtain ⟨b, hb, -⟩ := h.exists_mem
  exact List.not_mem_nil hb

theorem Trails.append_left (as : List UInt8) (h : Trails p q bs) : Trails p q (as ++ bs) := by
  obtain ⟨before, b, after, rfl, hb, hafter⟩ := h
  exact ⟨as ++ before, b, after, (List.append_assoc ..).symm, hb, hafter⟩

theorem trails_append : Trails p q (as ++ bs) ↔ Trails p q bs ∨ Trails p q as ∧ ∀ c ∈ bs, q c := by
  constructor
  · rintro ⟨before, b, after, heq, hb, hafter⟩
    obtain ⟨front, rfl, rfl⟩ | ⟨back, rfl, hback⟩ := List.append_eq_append_iff.1 heq
    · exact .inl ⟨front, b, after, rfl, hb, hafter⟩
    · cases back with
      | nil => exact .inl ⟨[], b, after, hback.symm, hb, hafter⟩
      | cons c back =>
          obtain ⟨rfl, rfl⟩ := List.cons.inj hback
          obtain ⟨hfront, hbs⟩ := List.forall_mem_append.1 hafter
          exact .inr ⟨⟨before, b, back, rfl, hb, hfront⟩, hbs⟩
  · rintro (h | ⟨⟨before, b, after, rfl, hb, hafter⟩, hbs⟩)
    · exact h.append_left as
    · refine ⟨before, b, after ++ bs, by simp, hb, ?_⟩
      exact List.forall_mem_append.2 ⟨hafter, hbs⟩

/-- What a piece of a text breaks off in does not go on in what follows. -/
def Ends (p q : UInt8 → Prop) (piece after : List UInt8) : Prop :=
  Trails p q piece → ∀ b ∈ after.head?, ¬q b

theorem Ends.append {piece piece' after : List UInt8} (h : Ends p q piece (piece' ++ after))
    (h' : Ends p q piece' after) : Ends p q (piece ++ piece') after := by
  intro htrails b hb
  obtain hin | ⟨hpiece, hrest⟩ := trails_append.1 htrails
  · exact h' hin b hb
  · cases piece' with
    | nil => exact h hpiece b hb
    | cons c cs => exact absurd (hrest c List.mem_cons_self) (h hpiece c rfl)

/-- What began in a piece and ends with it does not go on through `before`, neither past the first byte
of it nor, if there is none, up to a byte with which it would go on. -/
theorem Ends.not_trails {piece before after : List UInt8} (h : Ends p q piece after)
    (hhead : ∃ b ∈ after.head?, b ∈ before ∨ q b) (hbefore : ¬Trails p q before) :
    ¬Trails p q (piece ++ before) := by
  intro htrails
  obtain hin | ⟨hpiece, hrest⟩ := trails_append.1 htrails
  · exact hbefore hin
  · obtain ⟨b, hb, hmem⟩ := hhead
    exact h hpiece b hb (hmem.elim (hrest b) id)

end Trails

/-- The mark that starts a comment. -/
def period : UInt8 := 0x2E

/-- A text breaks off in a comment: after a period there is no end of line. -/
def InComment (bs : List UInt8) : Prop := Trails (· = period) (· ≠ lineFeed) bs

/-- A text breaks off in a symbol: after its start there is only what continues it. -/
def InSymbol (bs : List UInt8) : Prop :=
  Trails (startsSymbol · = true) (continuesSymbol · = true) bs

/-! ### Symbols that are met -/

/-- A symbol, as long as it can be, that starts neither in a comment nor in another symbol. -/
structure MeetsSymbol (text before run after : List UInt8) : Prop where
  text_eq : text = before ++ (run ++ after)
  first : ∃ b ∈ run.head?, startsSymbol b = true
  rest : ∀ b ∈ run, continuesSymbol b = true
  longest : ∀ b ∈ after.head?, continuesSymbol b = false
  outside_comment : ¬InComment before
  outside_symbol : ¬InSymbol before

/-! ### Lexemes and their bytes -/

/-- What the bytes of a token are, and what may follow them. -/
inductive Spells : Token → List UInt8 → List UInt8 → Prop
  /-- A letter or dollar sign, then letters, digits, underscores and dollar signs. -/
  | symbol {name : String} {run after : List UInt8}
      (first : ∃ b ∈ run.head?, startsSymbol b = true)
      (rest : ∀ b ∈ run, continuesSymbol b = true)
      (longest : ∀ b ∈ after.head?, continuesSymbol b = false)
      (name_eq : utf8 name = run) : Spells (.symbol name) run after
  /-- A digit, then digits and underscores; the value is the number, modulo the size of a 64-bit
  number. -/
  | integer {value : UInt64} {run after : List UInt8}
      (first : ∃ b ∈ run.head?, isDigit b = true)
      (rest : ∀ b ∈ run, continuesInteger true b = true)
      (longest : ∀ b ∈ after.head?, continuesInteger true b = false)
      (value_eq : value.toNat = number run % 2 ^ 64) : Spells (.integer value) run after
  /-- A single byte of which nothing else is made. -/
  | punctuation {mark : Char} {b : UInt8} {after : List UInt8}
      (symbol : startsSymbol b = false) (digit : isDigit b = false) (comment : b ≠ period)
      (blank : isBlank b = false) (mark_eq : mark.toNat = b.toNat) :
      Spells (.punctuation mark) [b] after
  | newline {after : List UInt8} : Spells .newline [lineFeed] after

/-- A lexeme stands in a text, of which the first byte has the given place, and not in a comment. -/
structure Lexeme.Stands (l : Lexeme) (pos : Nat) (text before run after : List UInt8) : Prop where
  text_eq : text = before ++ (run ++ after)
  start_eq : l.start = pos + before.length
  stop_eq : l.stop = l.start + run.length
  nonempty : run ≠ []
  spells : Spells l.token run after
  outside : ¬InComment (before ++ run)

/-- A place is in the span of none of the lexemes. -/
def Uncovered (ls : List Lexeme) (place : Nat) : Prop :=
  ∀ l ∈ ls, place < l.start ∨ l.stop ≤ place

/-- The lexemes of a piece of a text, of which the first byte has the given place.  They stand in it
one after another.  A byte in none of them is a space, a tab or a carriage return, or it is in a
comment: there is a period before it, or there, that is in none of them either, and no end of line in
between.  Each end of line is one of them. -/
structure Partition (pos : Nat) (piece after : List UInt8) (ls : List Lexeme) : Prop where
  stands : ∀ l ∈ ls, l.stop ≤ pos + piece.length ∧
    ∃ before run rest, l.Stands pos (piece ++ after) before run rest
  ascending : ls.Pairwise fun l m => l.stop ≤ m.start
  between : ∀ before b rest, piece = before ++ b :: rest → Uncovered ls (pos + before.length) →
    (b = 0x20 ∨ b = 0x09 ∨ b = 0x0D) ∨
      ∃ outer inner, before ++ [b] = outer ++ period :: inner ∧
        Uncovered ls (pos + outer.length) ∧ lineFeed ∉ inner
  newlines : ∀ before rest, piece = before ++ lineFeed :: rest →
    ⟨.newline, pos + before.length, pos + before.length + 1⟩ ∈ ls

/-- A piece of a text that can be left behind: no symbol that is met in it is too long, and neither a
comment nor a symbol goes on after it. -/
structure Passed (piece after : List UInt8) : Prop where
  short : ∀ before run rest, MeetsSymbol (piece ++ after) before run rest →
    before.length < piece.length → run.length ≤ maxSymbolLength
  comment : Ends (· = period) (· ≠ lineFeed) piece after
  symbol : Ends (startsSymbol · = true) (continuesSymbol · = true) piece after

/-! ### Symbols in what follows -/

/-- Where two texts are the same, the longer front goes on after the shorter one. -/
theorem exists_front {as bs cs ds : List UInt8} (h : as ++ bs = cs ++ ds)
    (hle : as.length ≤ cs.length) : ∃ front, cs = as ++ front ∧ bs = front ++ ds := by
  obtain hfront | ⟨back, rfl, rfl⟩ := List.append_eq_append_iff.1 h
  · exact hfront
  · rw [List.length_append] at hle
    obtain rfl := List.eq_nil_of_length_eq_zero (by omega : back.length = 0)
    exact ⟨[], by simp, rfl⟩

/-- A byte of two pieces that is not after the first is in it. -/
theorem exists_back {as bs cs ds : List UInt8} {b : UInt8} (h : as ++ bs = cs ++ b :: ds)
    (hlt : cs.length < as.length) : ∃ back, as = cs ++ b :: back := by
  have hle : (cs ++ [b]).length ≤ as.length := by
    rw [List.length_append, List.length_singleton]
    exact hlt
  obtain ⟨back, rfl, -⟩ := exists_front (by rw [h, List.append_assoc]; rfl) hle
  exact ⟨back, by simp⟩

section Meets

variable {piece piece' after before run rest : List UInt8}

theorem MeetsSymbol.ne_nil (h : MeetsSymbol after before run rest) : run ≠ [] := by
  rintro rfl
  obtain ⟨b, hb, -⟩ := h.first
  cases hb

/-- The first byte of a text comes before a symbol that is met, or the symbol starts with it. -/
theorem MeetsSymbol.head (h : MeetsSymbol after before run rest) :
    ∃ b ∈ after.head?, b ∈ before ∨ startsSymbol b = true := by
  obtain ⟨b, hb, hstarts⟩ := h.first
  obtain ⟨bs, rfl⟩ := List.head?_eq_some_iff.1 hb
  rw [h.text_eq]
  cases before with
  | nil => exact ⟨b, rfl, .inr hstarts⟩
  | cons c cs => exact ⟨c, rfl, .inl List.mem_cons_self⟩

/-- **A symbol that is met after a piece** is met in the whole. -/
theorem Passed.meets (h : Passed piece after) (hmeets : MeetsSymbol after before run rest) :
    MeetsSymbol (piece ++ after) (piece ++ before) run rest := by
  obtain ⟨b, hb, hhead⟩ := hmeets.head
  refine { hmeets with text_eq := ?_, outside_comment := ?_, outside_symbol := ?_ }
  · rw [hmeets.text_eq, List.append_assoc]
  · refine h.comment.not_trails ⟨b, hb, hhead.imp id ?_⟩ hmeets.outside_comment
    rintro hstarts rfl
    cases hstarts
  · exact h.symbol.not_trails ⟨b, hb, hhead.imp id startsSymbol_continues⟩ hmeets.outside_symbol

/-- A symbol that is met in the whole, and not in a piece, is met after the piece. -/
theorem MeetsSymbol.after_piece (h : MeetsSymbol (piece ++ after) before run rest)
    (hle : piece.length ≤ before.length) :
    ∃ before', before = piece ++ before' ∧ MeetsSymbol after before' run rest := by
  obtain ⟨before', rfl, htext⟩ := exists_front h.text_eq hle
  exact ⟨before', rfl, { h with
    text_eq := htext
    outside_comment := fun hin => h.outside_comment (hin.append_left piece)
    outside_symbol := fun hin => h.outside_symbol (hin.append_left piece) }⟩

end Meets

/-! ### Pieces put together -/

section Pieces

variable {pos : Nat} {piece piece' after before run rest : List UInt8} {ls ms : List Lexeme}

/-- **Two pieces that can be left behind** are one that can. -/
theorem Passed.append (h : Passed piece (piece' ++ after)) (h' : Passed piece' after) :
    Passed (piece ++ piece') after where
  short before run rest hmeets hlt := by
    rw [List.append_assoc] at hmeets
    obtain hin | hout := Nat.lt_or_ge before.length piece.length
    · exact h.short before run rest hmeets hin
    · obtain ⟨before', rfl, hmeets'⟩ := hmeets.after_piece hout
      rw [List.length_append, List.length_append] at hlt
      exact h'.short before' run rest hmeets' (by omega)
  comment := h.comment.append h'.comment
  symbol := h.symbol.append h'.symbol

/-- A lexeme after a piece stands in the whole. -/
theorem Lexeme.Stands.after_piece {l : Lexeme} (h : Passed piece after)
    (hstands : l.Stands (pos + piece.length) after before run rest) :
    l.Stands pos (piece ++ after) (piece ++ before) run rest := by
  refine { hstands with text_eq := ?_, start_eq := ?_, outside := ?_ }
  · rw [hstands.text_eq, List.append_assoc]
  · rw [hstands.start_eq, List.length_append, Nat.add_assoc]
  · rw [List.append_assoc]
    refine h.comment.not_trails ?_ hstands.outside
    have hne : before ++ run ≠ [] := fun hnil => hstands.nonempty (List.append_eq_nil_iff.1 hnil).2
    obtain ⟨b, bs, hcons⟩ := List.exists_cons_of_ne_nil hne
    refine ⟨b, ?_, .inl (by rw [hcons]; exact List.mem_cons_self)⟩
    rw [hstands.text_eq, ← List.append_assoc, hcons]
    rfl

theorem Partition.uncovered_before (h : Partition pos piece after ls) {place : Nat}
    (hlt : place < pos) : Uncovered ls place := by
  intro l hl
  obtain ⟨-, before, run, rest, hstands⟩ := h.stands l hl
  have hstart := hstands.start_eq
  omega

theorem Partition.uncovered_after (h : Partition pos piece after ls) {place : Nat}
    (hle : pos + piece.length ≤ place) : Uncovered ls place := by
  intro l hl
  obtain ⟨hstop, -⟩ := h.stands l hl
  omega

/-- **The lexemes of two pieces**, one after the other. -/
theorem Partition.append (hpassed : Passed piece (piece' ++ after))
    (h : Partition pos piece (piece' ++ after) ls)
    (h' : Partition (pos + piece.length) piece' after ms) :
    Partition pos (piece ++ piece') after (ls ++ ms) where
  stands l hl := by
    rw [List.length_append, List.append_assoc]
    obtain hl | hl := List.mem_append.1 hl
    · obtain ⟨hstop, hstands⟩ := h.stands l hl
      exact ⟨by omega, hstands⟩
    · obtain ⟨hstop, before, run, rest, hstands⟩ := h'.stands l hl
      exact ⟨by omega, _, _, _, hstands.after_piece hpassed⟩
  ascending := by
    refine List.pairwise_append.2 ⟨h.ascending, h'.ascending, fun l hl m hm => ?_⟩
    obtain ⟨hstop, -⟩ := h.stands l hl
    obtain ⟨-, before, run, rest, hstands⟩ := h'.stands m hm
    have hstart := hstands.start_eq
    omega
  between before b rest htext huncovered := by
    obtain ⟨hls, hms⟩ := List.forall_mem_append.1 huncovered
    obtain hin | hout := Nat.lt_or_ge before.length piece.length
    · -- the lexemes of the second piece come after the byte, and so after its comment
      obtain ⟨front, hpiece⟩ := exists_back htext hin
      refine (h.between before b front hpiece hls).imp id ?_
      rintro ⟨outer, inner, heq, houter, hinner⟩
      refine ⟨outer, inner, heq, List.forall_mem_append.2 ⟨houter, ?_⟩, hinner⟩
      have hlen := congrArg List.length heq
      simp only [List.length_append, List.length_cons, List.length_nil] at hlen
      exact h'.uncovered_before (by omega)
    · -- a comment of the second piece starts in it, where no lexeme of the first one reaches
      obtain ⟨before', rfl, htext'⟩ := exists_front htext hout
      rw [List.length_append, ← Nat.add_assoc] at hms
      refine (h'.between before' b rest htext' hms).imp id ?_
      rintro ⟨outer, inner, heq, houter, hinner⟩
      refine ⟨piece ++ outer, inner, by simp [heq], List.forall_mem_append.2 ⟨?_, ?_⟩, hinner⟩
      · exact h.uncovered_after (by rw [List.length_append]; omega)
      · rwa [List.length_append, ← Nat.add_assoc]
  newlines before rest htext := by
    obtain hin | hout := Nat.lt_or_ge before.length piece.length
    · obtain ⟨front, hpiece⟩ := exists_back htext hin
      exact List.mem_append_left ms (h.newlines before front hpiece)
    · obtain ⟨before', rfl, htext'⟩ := exists_front htext hout
      have hmem := h'.newlines before' rest htext'
      rw [Nat.add_assoc, ← List.length_append] at hmem
      exact List.mem_append_right ls hmem

end Pieces

end FileDirectory.Source
