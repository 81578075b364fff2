/-
**Scanning partitions a text.**

A scanner leaves one piece of its text behind after another: a lexeme, a white byte or a comment.  What
holds of the pieces holds of the text, so that scanning succeeds and yields the lexemes of the text,
unless a symbol is met that is too long; the first of these is what it complains about.

Main definitions:

* `FileDirectory.Source.Scanned` — what scanning has to yield.

Main results:

* `FileDirectory.Source.partition_token`, `FileDirectory.Source.partition_blank`,
  `FileDirectory.Source.partition_comment` — the kinds of pieces;
* `FileDirectory.Source.scanned_scanFrom` — every text is scanned as it has to be;
* `FileDirectory.Source.scan_partitions` — scanning partitions a text.
-/

import FileDirectory.Proofs.Source.Lexeme

set_option autoImplicit false

namespace FileDirectory.Source

/-! ### Lexemes -/

section Spells

variable {token : Token} {run after : List UInt8}

theorem Spells.ne_nil (h : Spells token run after) : run ≠ [] := by
  cases h with
  | symbol first | integer first =>
      rintro rfl
      obtain ⟨b, hb, -⟩ := first
      cases hb
  | punctuation | newline => exact List.cons_ne_nil _ _

/-- No lexeme has a period in it. -/
theorem Spells.ne_period (h : Spells token run after) : ∀ b ∈ run, b ≠ period := by
  rintro b hb rfl
  cases h with
  | symbol first rest => cases rest _ hb
  | integer first rest => cases rest _ hb
  | punctuation symbol digit comment => exact comment (List.mem_singleton.1 hb).symm
  | newline => cases List.mem_singleton.1 hb

/-- No lexeme has an end of line in it, apart from those that are one. -/
theorem Spells.newline_of_mem (h : Spells token run after) (hmem : lineFeed ∈ run) :
    token = .newline ∧ run = [lineFeed] := by
  cases h with
  | symbol first rest => cases rest _ hmem
  | integer first rest => cases rest _ hmem
  | punctuation symbol digit comment blank =>
      rw [← List.mem_singleton.1 hmem] at blank
      cases blank
  | newline => exact ⟨rfl, rfl⟩

end Spells

/-! ### Pieces -/

section Pieces

variable {pos : Nat} {piece after : List UInt8}

/-- A lexeme is a piece. -/
theorem partition_token {token : Token} (h : Spells token piece after) :
    Partition pos piece after [⟨token, pos, pos + piece.length⟩] where
  stands l hl := by
    obtain rfl := List.mem_singleton.1 hl
    refine ⟨Nat.le_refl _, [], piece, after, rfl, rfl, rfl, h.ne_nil, h, fun hin => ?_⟩
    obtain ⟨b, hb, hperiod⟩ := hin.exists_mem
    exact h.ne_period b hb hperiod
  ascending := List.pairwise_singleton _ _
  between before b rest hpiece huncovered := by
    have hlen := congrArg List.length hpiece
    rw [List.length_append, List.length_cons] at hlen
    have hplace := huncovered _ List.mem_cons_self
    dsimp only at hplace
    omega
  newlines before rest hpiece := by
    -- a lexeme with an end of line in it is that end of line
    obtain ⟨rfl, hline⟩ := h.newline_of_mem (by simp [hpiece])
    have hlen := congrArg List.length hpiece
    rw [hline, List.length_append, List.length_singleton, List.length_cons] at hlen
    obtain rfl := List.eq_nil_of_length_eq_zero (by omega : before.length = 0)
    simp [hline]

theorem partition_nil : Partition pos [] after [] where
  stands l hl := nomatch hl
  ascending := .nil
  between before b rest hpiece := by simp at hpiece
  newlines before rest hpiece := by simp at hpiece

/-- White other than an end of line is a piece without lexemes. -/
theorem partition_blank {b : UInt8} (hb : isBlank b = true) (hline : b ≠ lineFeed) :
    Partition pos [b] after [] where
  stands l hl := nomatch hl
  ascending := .nil
  between before c rest hpiece _ := by
    obtain ⟨rfl, rfl, rfl⟩ : before = [] ∧ c = b ∧ rest = [] := by
      simpa [eq_comm] using List.append_eq_singleton_iff.1 hpiece.symm
    obtain h | h | h | h := isBlank_iff.1 hb
    · exact .inl (.inl h)
    · exact .inl (.inr (.inl h))
    · exact .inl (.inr (.inr h))
    · exact absurd h hline
  newlines before rest hpiece := by
    refine absurd ?_ hline
    exact (List.mem_singleton.1 (hpiece ▸ (by simp : lineFeed ∈ before ++ lineFeed :: rest))).symm

/-- A comment is a piece without lexemes. -/
theorem partition_comment {text : List UInt8} (htext : lineFeed ∉ text) :
    Partition pos (period :: text) after [] where
  stands l hl := nomatch hl
  ascending := .nil
  between before b rest hpiece _ := by
    refine .inr ?_
    cases before with
    | nil =>
        obtain ⟨rfl, -⟩ := List.cons.inj hpiece
        exact ⟨[], [], rfl, nofun, List.not_mem_nil⟩
    | cons c cs =>
        obtain ⟨rfl, htail⟩ := List.cons.inj hpiece
        have heq : text = cs ++ [b] ++ rest := by rw [htail, ← List.append_cons]; rfl
        refine ⟨[], cs ++ [b], rfl, nofun, fun hmem => htext ?_⟩
        rw [heq]
        exact List.mem_append_left rest hmem
  newlines before rest hpiece := by
    have hmem : lineFeed ∈ period :: text := by simp [hpiece]
    obtain h | h := List.mem_cons.1 hmem
    · cases h
    · exact absurd h htext

/-- A symbol that is met in a piece starts there. -/
theorem MeetsSymbol.in_piece {before run rest : List UInt8}
    (h : MeetsSymbol (piece ++ after) before run rest) (hlt : before.length < piece.length) :
    ∃ b back, startsSymbol b = true ∧ piece = before ++ b :: back := by
  obtain ⟨b, hb, hstarts⟩ := h.first
  obtain ⟨bs, rfl⟩ := List.head?_eq_some_iff.1 hb
  obtain ⟨back, hback⟩ := exists_back h.text_eq hlt
  exact ⟨b, back, hstarts, hback⟩

/-- A piece in which neither a comment nor a symbol starts can be left behind. -/
theorem passed_plain (h : ∀ b ∈ piece, b ≠ period ∧ startsSymbol b = false) :
    Passed piece after where
  short before run rest hmeets hlt := by
    obtain ⟨b, back, hstarts, rfl⟩ := hmeets.in_piece hlt
    exact absurd hstarts (by simp [(h b (by simp)).2])
  comment hin := by
    obtain ⟨b, hb, hperiod⟩ := hin.exists_mem
    exact absurd hperiod (h b hb).1
  symbol hin := by
    obtain ⟨b, hb, hstarts⟩ := hin.exists_mem
    exact absurd hstarts (by simp [(h b hb).2])

/-- A symbol that is not too long can be left behind. -/
theorem passed_symbol (hfirst : ∃ b ∈ piece.head?, startsSymbol b = true)
    (hrest : ∀ b ∈ piece, continuesSymbol b = true)
    (hlongest : ∀ b ∈ after.head?, continuesSymbol b = false)
    (hshort : piece.length ≤ maxSymbolLength) : Passed piece after where
  short before run rest hmeets hlt := by
    cases before with
    | nil =>
        -- the symbol that is met is this one
        have htext : piece ++ after = run ++ rest := hmeets.text_eq
        have hrun : run = piece := by
          rw [← takeWhile_run hmeets.rest hmeets.longest, ← htext, takeWhile_run hrest hlongest]
        rw [hrun]
        exact hshort
    | cons c cs =>
        -- another symbol would start within this one
        obtain ⟨b, back, -, rfl⟩ := hmeets.in_piece hlt
        obtain ⟨d, hd, hstarts⟩ := hfirst
        obtain rfl := Option.some.inj hd
        refine absurd ⟨[], c, cs, rfl, hstarts, fun e he => ?_⟩ hmeets.outside_symbol
        exact hrest e (by simp [he])
  comment hin := by
    obtain ⟨b, hb, rfl⟩ := hin.exists_mem
    cases hrest _ hb
  symbol _ b hb := by simp [hlongest b hb]

/-- A comment up to the end of its line can be left behind. -/
theorem passed_comment {text : List UInt8} (htext : lineFeed ∉ text)
    (hafter : ∀ b ∈ after.head?, b = lineFeed) : Passed (period :: text) after where
  short before run rest hmeets hlt := by
    obtain ⟨b, back, hstarts, hpiece⟩ := hmeets.in_piece hlt
    cases before with
    | nil =>
        obtain ⟨rfl, -⟩ := List.cons.inj hpiece
        cases hstarts
    | cons c cs =>
        -- a symbol after the period would start in the comment
        obtain ⟨rfl, rfl⟩ := List.cons.inj hpiece
        refine absurd ⟨[], period, cs, rfl, rfl, fun d hd => ?_⟩ hmeets.outside_comment
        rintro rfl
        exact htext (List.mem_append_left _ hd)
  comment _ b hb := not_not.2 (hafter b hb)
  symbol _ b hb := by
    rw [hafter b hb]
    decide

end Pieces

/-! ### Bytes of a piece -/

theorem plain_of_blank {b : UInt8} (h : isBlank b = true) :
    b ≠ period ∧ startsSymbol b = false := by
  obtain rfl | rfl | rfl | rfl := isBlank_iff.1 h <;> decide

theorem plain_of_integer {b : UInt8} (h : continuesInteger true b = true) :
    b ≠ period ∧ startsSymbol b = false := by
  refine ⟨fun hperiod => ?_, Bool.eq_false_iff.2 fun hstarts => ?_⟩
  · rw [hperiod] at h
    cases h
  · simp only [continuesInteger, Bool.or_eq_true, Bool.true_and, decide_eq_true_eq] at h
    simp only [startsSymbol, Bool.or_eq_true, decide_eq_true_eq] at hstarts
    obtain h | rfl := h
    · obtain hletter | rfl := hstarts
      · have hb := isDigit_iff.1 h
        have hb' := isLetter_iff.1 hletter
        omega
      · cases h
    · obtain hletter | hdollar := hstarts
      · cases hletter
      · cases hdollar

theorem lt_of_continuesSymbol {b : UInt8} (h : continuesSymbol b = true) : b < 128 := by
  have hlt : b.toNat < 128 := by
    simp only [continuesSymbol, Bool.or_eq_true, decide_eq_true_eq, isLetter_iff, isDigit_iff] at h
    obtain ((h | h) | rfl) | rfl := h
    · omega
    · omega
    · decide
    · decide
  exact hlt

/-! ### Scanning -/

/-- What scanning has to yield: the lexemes of a text that can be left behind, or a complaint about the
first symbol that is too long. -/
def Scanned (pos : Nat) (text : List UInt8) : Except ScanFault (List Lexeme) → Prop
  | .ok ls => Passed text [] ∧ Partition pos text [] ls
  | .error fault => ∃ before run after, MeetsSymbol text before run after ∧
      maxSymbolLength < run.length ∧ Passed before (run ++ after) ∧
        fault = ⟨pos + before.length, .symbolTooLong (latin1 run)⟩

/-- **One piece more in front.** -/
theorem Scanned.piece {pos : Nat} {piece rest : List UInt8} {ls : List Lexeme}
    {outcome : Except ScanFault (List Lexeme)} (hpassed : Passed piece rest)
    (hpiece : Partition pos piece rest ls) (h : Scanned (pos + piece.length) rest outcome) :
    Scanned pos (piece ++ rest) ((ls ++ ·) <$> outcome) := by
  cases outcome with
  | ok ms =>
      obtain ⟨hrest, hms⟩ := h
      rw [← List.append_nil rest] at hpassed hpiece
      exact ⟨hpassed.append hrest, hpiece.append hpassed hms⟩
  | error fault =>
      obtain ⟨before, run, after, hmeets, hlong, hbefore, rfl⟩ := h
      refine ⟨piece ++ before, run, after, hpassed.meets hmeets, hlong, ?_, ?_⟩
      · rw [hmeets.text_eq] at hpassed
        exact hpassed.append hbefore
      · rw [List.length_append, Nat.add_assoc]

theorem Scanned.skip {pos : Nat} {piece rest : List UInt8}
    {outcome : Except ScanFault (List Lexeme)} (hpassed : Passed piece rest)
    (hpiece : Partition pos piece rest []) (h : Scanned (pos + piece.length) rest outcome) :
    Scanned pos (piece ++ rest) outcome := by
  have hscanned := h.piece hpassed hpiece
  cases outcome <;> exact hscanned

/-- **Every text is scanned as it has to be.** -/
theorem scanned_scanFrom (pos : Nat) (text : List UInt8) : Scanned pos text (scanFrom pos text) := by
  -- each case leaves one piece behind; what is left of the text is scanned as it has to be
  fun_induction scanFrom pos text with
  | case1 pos => exact ⟨passed_plain nofun, partition_nil⟩
  | case2 pos bs ih =>
      have hplain : lineFeed ≠ period ∧ startsSymbol lineFeed = false := ⟨by decide, rfl⟩
      exact Scanned.piece (passed_plain (List.forall_mem_singleton.2 hplain))
        (partition_token .newline) ih
  | case3 pos b bs hline hb ih =>
      refine Scanned.skip (passed_plain ?_) (partition_blank hb hline) ih
      exact List.forall_mem_singleton.2 (plain_of_blank hb)
  | case4 pos b bs hline hb hstarts run hlong =>
      obtain ⟨htext, hrun, hrest⟩ := exists_run (startsSymbol_continues hstarts) bs
      rw [htext]
      exact ⟨[], run, _, ⟨rfl, ⟨b, rfl, hstarts⟩, hrun, hrest, not_trails_nil, not_trails_nil⟩, hlong,
        passed_plain nofun, rfl⟩
  | case5 pos b bs hline hb hstarts run hshort ih =>
      obtain ⟨htext, hrun, hrest⟩ := exists_run (startsSymbol_continues hstarts) bs
      rw [htext]
      have hname : utf8 (latin1 run) = run := utf8_latin1 fun c hc => lt_of_continuesSymbol (hrun c hc)
      exact Scanned.piece (passed_symbol ⟨b, rfl, hstarts⟩ hrun hrest (Nat.not_lt.1 hshort))
        (partition_token (.symbol ⟨b, rfl, hstarts⟩ hrun hrest hname)) ih
  | case6 pos b bs hline hb hstarts hdigit literal ih =>
      have hcontinues : continuesInteger true b = true := by simp [continuesInteger, hdigit]
      obtain ⟨htext, hliteral, hrest⟩ := exists_run hcontinues bs
      rw [htext]
      refine Scanned.piece (passed_plain fun c hc => plain_of_integer (hliteral c hc))
        (partition_token (.integer ⟨b, rfl, hdigit⟩ hliteral hrest (toNat_value b _))) ih
  | case7 pos bs hline hb hstarts hdigit comment ih =>
      have htext : period :: bs = comment ++ bs.dropWhile (· ≠ lineFeed) := by simp [comment, period]
      have hinner : lineFeed ∉ bs.takeWhile (· ≠ lineFeed) := fun hmem => by
        simpa using List.mem_takeWhile_imp hmem
      have hafter : ∀ c ∈ (bs.dropWhile (· ≠ lineFeed)).head?, c = lineFeed := fun c hc => by
        simpa using head?_dropWhile _ bs c hc
      exact htext ▸ Scanned.skip (passed_comment hinner hafter) (partition_comment hinner) ih
  | case8 pos b bs hline hb hstarts hdigit hperiod ih =>
      have hsymbol : startsSymbol b = false := by simpa using hstarts
      refine Scanned.piece (passed_plain (List.forall_mem_singleton.2 ⟨hperiod, hsymbol⟩))
        (partition_token (.punctuation hsymbol (by simpa using hdigit) hperiod (by simpa using hb)
          (toNat_latin1Char b))) ih

/-- No symbol that is met in a text is too long. -/
def ShortSymbols (text : List UInt8) : Prop :=
  ∀ before run after, MeetsSymbol text before run after → run.length ≤ maxSymbolLength

/-- The first symbol that is met in a text and is too long. -/
structure FirstLong (text before run after : List UInt8) : Prop where
  meets : MeetsSymbol text before run after
  long : maxSymbolLength < run.length
  first : ∀ before' run' after', MeetsSymbol text before' run' after' →
    before'.length < before.length → run'.length ≤ maxSymbolLength

/-- **Scanning partitions a text**, unless a symbol is met that is too long: the first of these is what
it then complains about, with the place where it starts. -/
theorem scan_partitions (text : List UInt8) :
    (ShortSymbols text → ∃ ls, scan text = .ok ls ∧ Partition 0 text [] ls) ∧
    (¬ShortSymbols text → ∃ before run after, FirstLong text before run after ∧
      scan text = .error ⟨before.length, .symbolTooLong (latin1 run)⟩) := by
  have hscanned := scanned_scanFrom 0 text
  cases hscan : scanFrom 0 text with
  | ok ls =>
      rw [hscan] at hscanned
      obtain ⟨hpassed, hpartition⟩ := hscanned
      refine ⟨fun _ => ⟨ls, hscan, hpartition⟩, fun hlong => absurd ?_ hlong⟩
      intro before run after hmeets
      refine hpassed.short before run after (by rwa [List.append_nil]) ?_
      have hlen := congrArg List.length hmeets.text_eq
      have hrun := List.length_pos_iff.2 hmeets.ne_nil
      simp only [List.length_append] at hlen
      omega
  | error fault =>
      rw [hscan] at hscanned
      obtain ⟨before, run, after, hmeets, hlong, hpassed, rfl⟩ := hscanned
      refine ⟨fun hshort => ?_, fun _ => ⟨before, run, after, ⟨hmeets, hlong, ?_⟩, ?_⟩⟩
      · exact absurd (hshort before run after hmeets) (Nat.not_le.2 hlong)
      · rw [hmeets.text_eq]
        exact hpassed.short
      · rw [Nat.zero_add] at hscan
        exact hscan

/-- Two texts, one of them with a symbol that is too long. -/
theorem scan_partitions_both :
    (∃ ls, scan (utf8 "A 1.B") = .ok ls ∧ Partition 0 (utf8 "A 1.B") [] ls) ∧
    ∃ before run after, FirstLong (utf8 "ABCDEFGHIJKLM") before run after ∧
      scan (utf8 "ABCDEFGHIJKLM") = .error ⟨before.length, .symbolTooLong (latin1 run)⟩ := by
  refine ⟨(scan_partitions _).1 ?_, (scan_partitions _).2 ?_⟩
  · intro before run after hmeets
    have hlen := congrArg List.length hmeets.text_eq
    have htext : (utf8 "A 1.B").length = 5 := rfl
    rw [htext, List.length_append, List.length_append] at hlen
    have hmax : maxSymbolLength = 12 := rfl
    omega
  · intro hshort
    have hmeets : MeetsSymbol (utf8 "ABCDEFGHIJKLM") [] (utf8 "ABCDEFGHIJKLM") [] :=
      ⟨by simp, ⟨0x41, rfl, rfl⟩, by decide +kernel, nofun, not_trails_nil, not_trails_nil⟩
    exact absurd (hshort _ _ _ hmeets) (by decide +kernel)

end FileDirectory.Source
