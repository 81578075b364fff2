/-
**Scanning goes line by line.**

No lexeme, white or comment reaches past the end of a line, and nothing depends on what stands before
it.  So a text may be cut after any end of line: the lexemes of the whole are those up to the cut and
then those of the rest, each further on by the length of what comes before.

Main definitions:

* `FileDirectory.Source.Lexeme.shift`, `FileDirectory.Source.ScanFault.shift` — lexemes and complaints
  further on in a text;
* `FileDirectory.Source.Opens`, `FileDirectory.Source.Balks` — how the scanner begins with a text.

Main results:

* `FileDirectory.Source.opens_or_balks` — it leaves a piece behind, or complains, whatever comes after
  the end of the line;
* `FileDirectory.Source.scanFrom_add` — scanning does not depend on the place of the first byte;
* `FileDirectory.Source.scanFrom_line` — what stands up to an end of line is scanned without what
  follows;
* `FileDirectory.Source.scan_lines` — scanning is compositional over lines.
-/

import FileDirectory.Proofs.Source.Literal
import FileDirectory.Source.Lexeme

set_option autoImplicit false

namespace FileDirectory.Source

/-! ### Further on in a text -/

/-- A lexeme `n` places further on. -/
def Lexeme.shift (n : Nat) (l : Lexeme) : Lexeme :=
  { l with start := n + l.start, stop := n + l.stop }

/-- A complaint `n` places further on. -/
def ScanFault.shift (n : Nat) (fault : ScanFault) : ScanFault :=
  { fault with position := n + fault.position }

theorem Lexeme.shift_shift (m n : Nat) (l : Lexeme) : (l.shift n).shift m = l.shift (m + n) := by
  simp [shift, Nat.add_assoc]

theorem ScanFault.shift_shift (m n : Nat) (fault : ScanFault) :
    (fault.shift n).shift m = fault.shift (m + n) := by
  simp [shift, Nat.add_assoc]

/-- What scanning yields `n` places further on. -/
def shifted (n : Nat) : Except ScanFault (List Lexeme) → Except ScanFault (List Lexeme)
  | .ok ls => .ok (ls.map (Lexeme.shift n))
  | .error fault => .error (fault.shift n)

theorem shifted_append (n : Nat) (ls : List Lexeme) (outcome : Except ScanFault (List Lexeme)) :
    shifted n ((ls ++ ·) <$> outcome) = (ls.map (Lexeme.shift n) ++ ·) <$> shifted n outcome := by
  cases outcome with
  | ok ms => exact congrArg Except.ok List.map_append
  | error fault => rfl

/-! ### How the scanner begins -/

/-- What comes after a text ends its line: it is empty or begins with an end of line. -/
def EndsLine (after : List UInt8) : Prop := ∀ b ∈ after.head?, b = lineFeed

/-- The scanner leaves a piece in front of `rest` behind, and has the lexemes `ls` from it, wherever
the piece stands and whatever comes after the line. -/
def Opens (piece rest : List UInt8) (ls : List Lexeme) : Prop :=
  ∀ pos after, EndsLine after →
    scanFrom pos (piece ++ rest ++ after) =
      (ls.map (Lexeme.shift pos) ++ ·) <$> scanFrom (pos + piece.length) (rest ++ after)

/-- The scanner complains of the first symbol of a text, wherever the text stands and whatever comes
after the line. -/
def Balks (text : List UInt8) (fault : ScanFault) : Prop :=
  ∀ pos after, EndsLine after → scanFrom pos (text ++ after) = .error (fault.shift pos)

section Runs

variable {p : UInt8 → Bool} {after : List UInt8}

/-- Runs of bytes of a kind that has no end of line end within the line. -/
theorem head?_line (hline : p lineFeed = false) (bs : List UInt8) (hafter : EndsLine after) :
    ∀ b ∈ (bs.dropWhile p ++ after).head?, p b = false := by
  intro b hb
  cases hrest : bs.dropWhile p with
  | nil =>
      rw [hrest] at hb
      rwa [hafter b hb]
  | cons c cs =>
      rw [hrest] at hb
      exact head?_dropWhile p bs b (by rw [hrest]; exact hb)

theorem takeWhile_line (hline : p lineFeed = false) (bs : List UInt8) (hafter : EndsLine after) :
    (bs ++ after).takeWhile p = bs.takeWhile p := by
  conv_lhs => rw [← List.takeWhile_append_dropWhile (p := p) (l := bs), List.append_assoc]
  exact takeWhile_run (fun _ hb => List.mem_takeWhile_imp hb) (head?_line hline bs hafter)

theorem dropWhile_line (hline : p lineFeed = false) (bs : List UInt8) (hafter : EndsLine after) :
    (bs ++ after).dropWhile p = bs.dropWhile p ++ after := by
  conv_lhs => rw [← List.takeWhile_append_dropWhile (p := p) (l := bs), List.append_assoc]
  exact dropWhile_run (fun _ hb => List.mem_takeWhile_imp hb) (head?_line hline bs hafter)

end Runs

/-- **The scanner leaves a piece of every text behind**, or it complains of its first symbol; the piece
ends within the line. -/
theorem opens_or_balks (b : UInt8) (bs : List UInt8) :
    (∃ piece rest ls, b :: bs = piece ++ rest ∧ piece ≠ [] ∧ Opens piece rest ls) ∨
      ∃ fault, Balks (b :: bs) fault := by
  by_cases hline : b = lineFeed
  · subst hline
    refine .inl ⟨[lineFeed], bs, [⟨.newline, 0, 1⟩], rfl, List.cons_ne_nil _ _, ?_⟩
    intro pos after _
    exact scanFrom_lineFeed pos _
  by_cases hblank : isBlank b = true
  · refine .inl ⟨[b], bs, [], rfl, List.cons_ne_nil _ _, ?_⟩
    intro pos after _
    rw [List.map_nil]
    exact (scanFrom_blank pos _ hblank hline).trans (id_map _).symm
  by_cases hstarts : startsSymbol b = true
  · have hrest : continuesSymbol lineFeed = false := rfl
    -- what stands behind the line has no part in the symbol, which ends within it
    by_cases hlong : maxSymbolLength < (b :: bs.takeWhile continuesSymbol).length
    · refine .inr ⟨⟨0, .symbolTooLong (latin1 (b :: bs.takeWhile continuesSymbol))⟩, ?_⟩
      intro pos after hafter
      rw [List.cons_append, scanFrom, if_neg hline, if_neg hblank, if_pos hstarts,
        takeWhile_line hrest bs hafter, if_pos hlong]
      rfl
    · refine .inl ⟨b :: bs.takeWhile continuesSymbol, bs.dropWhile continuesSymbol,
        [⟨.symbol (latin1 (b :: bs.takeWhile continuesSymbol)), 0,
          (b :: bs.takeWhile continuesSymbol).length⟩], by simp, List.cons_ne_nil _ _, ?_⟩
      intro pos after hafter
      rw [List.cons_append, List.takeWhile_append_dropWhile, List.cons_append, scanFrom,
        if_neg hline, if_neg hblank, if_pos hstarts, takeWhile_line hrest bs hafter, if_neg hlong,
        dropWhile_line hrest bs hafter]
      rfl
  by_cases hdigit : isDigit b = true
  · have hrest : continuesInteger true lineFeed = false := rfl
    refine .inl ⟨b :: bs.takeWhile (continuesInteger true), bs.dropWhile (continuesInteger true),
      [⟨.integer (literalValue (radixOf true b) (b :: bs.takeWhile (continuesInteger true))), 0,
        (b :: bs.takeWhile (continuesInteger true)).length⟩], by simp, List.cons_ne_nil _ _, ?_⟩
    intro pos after hafter
    rw [List.cons_append, List.takeWhile_append_dropWhile, List.cons_append, scanFrom,
      if_neg hline, if_neg hblank, if_neg hstarts, if_pos hdigit, takeWhile_line hrest bs hafter,
      dropWhile_line hrest bs hafter]
    rfl
  by_cases hperiod : b = 0x2E
  · subst hperiod
    have hrest : (decide (lineFeed ≠ lineFeed)) = false := rfl
    refine .inl ⟨0x2E :: bs.takeWhile (· ≠ lineFeed), bs.dropWhile (· ≠ lineFeed), [], by simp,
      List.cons_ne_nil _ _, ?_⟩
    intro pos after hafter
    rw [List.cons_append, List.takeWhile_append_dropWhile, List.cons_append, scanFrom,
      if_neg hline, if_neg hblank, if_neg hstarts, if_neg hdigit, if_pos rfl,
      takeWhile_line hrest bs hafter, dropWhile_line hrest bs hafter, List.map_nil]
    exact (id_map _).symm
  · refine .inl ⟨[b], bs, [⟨.punctuation (latin1Char b), 0, 1⟩], rfl, List.cons_ne_nil _ _, ?_⟩
    intro pos after _
    rw [List.append_assoc, List.singleton_append, scanFrom, if_neg hline, if_neg hblank,
      if_neg hstarts, if_neg hdigit, if_neg hperiod]
    rfl

/-! ### Scanning line by line -/

/-- **Scanning does not depend on the place** of the first byte. -/
theorem scanFrom_add (n pos : Nat) (text : List UInt8) :
    scanFrom (n + pos) text = shifted n (scanFrom pos text) := by
  -- on the length of the text, which each piece makes shorter
  induction hlen : text.length using Nat.strong_induction_on generalizing pos text with
  | _ length ih =>
      cases text with
      | nil => rw [scanFrom_nil, scanFrom_nil]; rfl
      | cons b bs =>
          have hnil : EndsLine [] := nofun
          obtain ⟨piece, rest, ls, htext, hne, hopens⟩ | ⟨fault, hbalks⟩ := opens_or_balks b bs
          · have hpos := List.length_pos_iff.2 hne
            have hlength := congrArg List.length htext
            rw [hlen, List.length_append] at hlength
            have hscan := fun pos => hopens pos [] hnil
            simp only [List.append_nil] at hscan
            rw [htext, hscan, hscan, Nat.add_assoc, ih rest.length (by omega) _ rest rfl,
              shifted_append, List.map_map]
            simp only [Function.comp_def, Lexeme.shift_shift]
          · have hscan := fun pos => hbalks pos [] hnil
            simp only [List.append_nil] at hscan
            rw [hscan, hscan]
            exact congrArg Except.error (fault.shift_shift n pos).symm

/-- **What stands up to an end of line is scanned without what follows**, and what follows is scanned
from there. -/
theorem scanFrom_line (pos : Nat) (as bs : List UInt8) :
    scanFrom pos (as ++ lineFeed :: bs) =
      scanFrom pos (as ++ [lineFeed]) >>= fun ls =>
        (ls ++ ·) <$> scanFrom (pos + as.length + 1) bs := by
  have hends : ∀ bs, EndsLine (lineFeed :: bs) := fun bs b hb => (Option.some.inj hb).symm
  induction hlen : as.length using Nat.strong_induction_on generalizing pos as with
  | _ length ih =>
      cases as with
      | nil =>
          subst hlen
          rw [List.nil_append, List.nil_append, scanFrom_lineFeed, scanFrom_lineFeed, scanFrom_nil]
          rfl
      | cons a as =>
          obtain ⟨piece, rest, ls, htext, hne, hopens⟩ | ⟨fault, hbalks⟩ := opens_or_balks a as
          · have hpos := List.length_pos_iff.2 hne
            have hlength := congrArg List.length htext
            rw [hlen, List.length_append] at hlength
            rw [htext, hopens pos _ (hends bs), hopens pos _ (hends []),
              ih rest.length (by omega) _ rest rfl, hlength, ← Nat.add_assoc, map_bind, bind_map_left]
            simp only [Functor.map_map, List.append_assoc]
          · rw [hbalks pos _ (hends bs), hbalks pos _ (hends [])]
            rfl

/-- **Scanning is compositional over lines**: if what stands up to an end of line is complained of, so
is the whole; otherwise the lexemes of what follows, or the complaint about it, come after the lexemes
up to there, further on by the length of what stands before. -/
theorem scan_lines (a b : List UInt8) :
    (∀ fault, scan (a ++ [lineFeed]) = .error fault → scan (a ++ lineFeed :: b) = .error fault) ∧
    ∀ ls, scan (a ++ [lineFeed]) = .ok ls →
      (∀ ms, scan b = .ok ms →
        scan (a ++ lineFeed :: b) = .ok (ls ++ ms.map (Lexeme.shift (a.length + 1)))) ∧
      ∀ fault, scan b = .error fault →
        scan (a ++ lineFeed :: b) = .error (fault.shift (a.length + 1)) := by
  have hwhole : scan (a ++ lineFeed :: b) = scan (a ++ [lineFeed]) >>= fun ls =>
      (ls ++ ·) <$> shifted (a.length + 1) (scan b) := by
    have hline := scanFrom_line 0 a b
    rw [Nat.zero_add, ← Nat.add_zero (a.length + 1), scanFrom_add] at hline
    exact hline
  refine ⟨fun fault hfault => ?_, fun ls hls => ⟨fun ms hms => ?_, fun fault hfault => ?_⟩⟩
  · rw [hwhole, hfault]
    rfl
  · rw [hwhole, hls, hms]
    rfl
  · rw [hwhole, hls, hfault]
    rfl

/-- A comment ends with its line, and a symbol that is too long is complained of where it stands in the
whole. -/
theorem scan_lines_both :
    scan (utf8 "A.B\n1") = .ok [⟨.symbol "A", 0, 1⟩, ⟨.newline, 3, 4⟩, ⟨.integer 1, 4, 5⟩] ∧
      scan (utf8 "A.B\nABCDEFGHIJKLM") = .error ⟨4, .symbolTooLong "ABCDEFGHIJKLM"⟩ ∧
      scan (utf8 "ABCDEFGHIJKLM\n1") = .error ⟨0, .symbolTooLong "ABCDEFGHIJKLM"⟩ := by
  have hfirst : scan (utf8 "A.B" ++ [lineFeed]) = .ok [⟨.symbol "A", 0, 1⟩, ⟨.newline, 3, 4⟩] := by
    decide +kernel
  refine ⟨?_, ?_, ?_⟩
  · exact ((scan_lines (utf8 "A.B") (utf8 "1")).2 _ hfirst).1 [⟨.integer 1, 0, 1⟩] (by decide +kernel)
  · exact ((scan_lines (utf8 "A.B") (utf8 "ABCDEFGHIJKLM")).2 _ hfirst).2
      ⟨0, .symbolTooLong "ABCDEFGHIJKLM"⟩ (by decide +kernel)
  · exact (scan_lines (utf8 "ABCDEFGHIJKLM") (utf8 "1")).1
      ⟨0, .symbolTooLong "ABCDEFGHIJKLM"⟩ (by decide +kernel)

end FileDirectory.Source
