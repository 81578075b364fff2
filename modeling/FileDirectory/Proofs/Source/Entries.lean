/-
**A list of words is read entry by entry.**

The entries of a text are its longest runs of bytes that are not white.  Reading a list of words looks
at one entry after another: what becomes of an entry depends on its bytes alone, and the first that is
refused ends the reading with the place where it starts.

Main definitions:

* `FileDirectory.Source.entries` — the entries of a text, each with its place;
* `FileDirectory.Source.AreEntries` — the longest runs of a text, in their order;
* `FileDirectory.Source.WordList.wordOf` — the word of an entry;
* `FileDirectory.Source.WordList.Fits` — an entry that is the literal of a word.

Main results:

* `FileDirectory.Source.areEntries` — the entries are the longest runs;
* `FileDirectory.Source.WordList.readFrom_eq` — a text is read entry by entry;
* `FileDirectory.Source.WordList.wordOf_eq_ok_iff` — which entries have a word, and which one;
* `FileDirectory.Source.WordList.read_eq_ok_iff`, `FileDirectory.Source.WordList.read_eq_error_iff` —
  what becomes of a text.
-/

import FileDirectory.Proofs.Outcome
import FileDirectory.Proofs.Source.Literal
import FileDirectory.Source.WordList
import Mathlib.Data.List.Nodup

set_option autoImplicit false

namespace FileDirectory.Source

/-! ### Entries -/

/-- A run of bytes and the place where it starts. -/
@[ext] structure Entry where
  start : Nat
  run : List UInt8
  deriving DecidableEq, Repr

/-- A byte that is not white. -/
def isSolid (b : UInt8) : Bool := !isBlank b

theorem isSolid_eq_false_iff {b : UInt8} : isSolid b = false ↔ isBlank b = true := by
  simp [isSolid]

theorem isSolid_of_not {b : UInt8} (h : ¬isBlank b = true) : isSolid b = true := by
  simpa [isSolid] using h

/-- The entries of what is left of a text, of which the next byte stands at `pos`. -/
def entriesFrom (pos : Nat) : List UInt8 → List Entry
  | [] => []
  | b :: bs =>
    if isBlank b then entriesFrom (pos + 1) bs
    else
      let run := b :: bs.takeWhile isSolid
      ⟨pos, run⟩ :: entriesFrom (pos + run.length) (bs.dropWhile isSolid)
  termination_by bs => bs.length
  decreasing_by
    all_goals
      have hsolid := (List.dropWhile_sublist isSolid (l := bs)).length_le
      simp only [List.length_cons]
      omega

/-- The entries of a text. -/
def entries (text : List UInt8) : List Entry := entriesFrom 0 text

@[simp] theorem entriesFrom_nil (pos : Nat) : entriesFrom pos [] = [] := by rw [entriesFrom]

theorem entriesFrom_blank (pos : Nat) {b : UInt8} (bs : List UInt8) (hb : isBlank b = true) :
    entriesFrom pos (b :: bs) = entriesFrom (pos + 1) bs := by
  rw [entriesFrom, if_pos hb]

/-- An entry stands before what cannot continue it. -/
theorem entriesFrom_run (pos : Nat) {run rest : List UInt8} (hne : run ≠ [])
    (hrun : ∀ b ∈ run, isSolid b = true) (hrest : ∀ b ∈ rest.head?, isSolid b = false) :
    entriesFrom pos (run ++ rest) = ⟨pos, run⟩ :: entriesFrom (pos + run.length) rest := by
  cases run with
  | nil => exact absurd rfl hne
  | cons b bs =>
      have hb : isBlank b = false := by simpa [isSolid] using hrun b List.mem_cons_self
      have hbs : ∀ c ∈ bs, isSolid c = true := fun c hc => hrun c (List.mem_cons_of_mem _ hc)
      rw [List.cons_append, entriesFrom, if_neg (by simp [hb]), takeWhile_run hbs hrest,
        dropWhile_run hbs hrest]

/-! ### Longest runs -/

/-- A run of bytes that are not white, with white or nothing before it and after it. -/
structure IsEntry (text before run after : List UInt8) : Prop where
  text_eq : text = before ++ (run ++ after)
  nonempty : run ≠ []
  solid : ∀ b ∈ run, isBlank b = false
  left : ∀ b ∈ before.getLast?, isBlank b = true
  right : ∀ b ∈ after.head?, isBlank b = true

section IsEntry

variable {before run after : List UInt8}

theorem not_isEntry_nil : ¬IsEntry [] before run after := fun h =>
  h.nonempty (List.append_eq_nil_iff.1 (List.append_eq_nil_iff.1 h.text_eq.symm).2).1

/-- No entry starts with white. -/
theorem isEntry_blank {b : UInt8} {bs : List UInt8} (hb : isBlank b = true) :
    IsEntry (b :: bs) before run after ↔
      ∃ before', before = b :: before' ∧ IsEntry bs before' run after := by
  constructor
  · intro h
    obtain ⟨htext, hne, hsolid, hleft, hright⟩ := h
    cases before with
    | nil =>
        obtain ⟨c, cs, rfl⟩ := List.exists_cons_of_ne_nil hne
        obtain ⟨rfl, -⟩ := List.cons.inj htext
        rw [hsolid b List.mem_cons_self] at hb
        cases hb
    | cons c before' =>
        obtain ⟨rfl, htext'⟩ := List.cons.inj htext
        refine ⟨before', rfl, htext', hne, hsolid, fun d hd => hleft d ?_, hright⟩
        have hlast : d ∈ ([b] ++ before').getLast? := List.mem_getLast?_append_of_mem_getLast? hd
        exact hlast
  · rintro ⟨before', rfl, htext, hne, hsolid, hleft, hright⟩
    refine ⟨congrArg (b :: ·) htext, hne, hsolid, fun d hd => ?_, hright⟩
    cases before' with
    | nil => exact Option.some.inj hd ▸ hb
    | cons c cs => exact hleft d (List.getLast?_append_of_ne_nil [b] (List.cons_ne_nil c cs) ▸ hd)

/-- Where a run of bytes that are not white comes to an end, it is an entry, and the other entries
come after it. -/
theorem isEntry_run {run' rest : List UInt8} (hne : run' ≠ [])
    (hrun : ∀ b ∈ run', isSolid b = true) (hrest : ∀ b ∈ rest.head?, isSolid b = false) :
    IsEntry (run' ++ rest) before run after ↔
      (before = [] ∧ run = run' ∧ after = rest) ∨
        ∃ before', before = run' ++ before' ∧ IsEntry rest before' run after := by
  constructor
  · rintro ⟨htext, hne', hsolid, hleft, hright⟩
    obtain ⟨before', rfl, hafter⟩ | ⟨part, rfl, hpart⟩ := List.append_eq_append_iff.1 htext
    · -- the other entry comes after the run
      refine .inr ⟨before', rfl, hafter, hne', hsolid, fun d hd => hleft d ?_, hright⟩
      exact List.mem_getLast?_append_of_mem_getLast? hd
    · cases hbefore : before.getLast? with
      | none =>
          -- the other entry starts with the run, and both are the longest
          obtain rfl := List.getLast?_eq_none_iff.1 hbefore
          have hrun' : ∀ b ∈ run, isSolid b = true := fun b hb => by simp [isSolid, hsolid b hb]
          have hafter : ∀ b ∈ after.head?, isSolid b = false := fun b hb => by
            simp [isSolid, hright b hb]
          rw [List.nil_append] at hrun ⊢
          refine .inl ⟨rfl, ?_, ?_⟩
          · rw [← takeWhile_run hrun' hafter, hpart, takeWhile_run hrun hrest]
          · rw [← dropWhile_run hrun' hafter, hpart, dropWhile_run hrun hrest]
      | some b =>
          -- the other entry does not start within the run
          have hmem : b ∈ before ++ part :=
            List.mem_append_left part (List.mem_of_getLast? hbefore)
          have hsolid' := hrun b hmem
          rw [isSolid, hleft b hbefore] at hsolid'
          cases hsolid'
  · rintro (⟨rfl, rfl, rfl⟩ | ⟨before', rfl, htext, hne', hsolid, hleft, hright⟩)
    · refine ⟨rfl, hne, fun b hb => ?_, by simp, fun b hb => ?_⟩
      · simpa [isSolid] using hrun b hb
      · exact isSolid_eq_false_iff.1 (hrest b hb)
    · refine ⟨by rw [htext, List.append_assoc], hne', hsolid, ?_, hright⟩
      cases before' with
      | nil =>
          obtain ⟨c, cs, rfl⟩ := List.exists_cons_of_ne_nil hne'
          have hblank := isSolid_eq_false_iff.1 (hrest c (by rw [htext]; rfl))
          rw [hsolid c List.mem_cons_self] at hblank
          cases hblank
      | cons c cs =>
          rwa [List.getLast?_append_of_ne_nil run' (List.cons_ne_nil c cs)]

end IsEntry

/-- **The entries are the longest runs of bytes that are not white.** -/
theorem mem_entriesFrom_iff {pos : Nat} {rest : List UInt8} {e : Entry} :
    e ∈ entriesFrom pos rest ↔
      ∃ before after, IsEntry rest before e.run after ∧ e.start = pos + before.length := by
  fun_induction entriesFrom pos rest with
  | case1 pos => simp [not_isEntry_nil]
  | case2 pos b bs hb ih =>
      simp only [ih, isEntry_blank hb]
      constructor
      · rintro ⟨before, after, h, hstart⟩
        exact ⟨b :: before, after, ⟨before, rfl, h⟩, by rw [hstart, List.length_cons]; omega⟩
      · rintro ⟨before, after, ⟨before', rfl, h⟩, hstart⟩
        exact ⟨before', after, h, by rw [hstart, List.length_cons]; omega⟩
  | case3 pos b bs hb run ih =>
      have hne : run ≠ [] := List.cons_ne_nil b _
      obtain ⟨htext, hrun, hrest⟩ : b :: bs = run ++ bs.dropWhile isSolid ∧ _ :=
        exists_run (isSolid_of_not hb) bs
      rw [List.mem_cons, ih, htext]
      simp only [isEntry_run hne hrun hrest]
      constructor
      · rintro (rfl | ⟨before, after, h, hstart⟩)
        · exact ⟨[], _, .inl ⟨rfl, rfl, rfl⟩, rfl⟩
        · exact ⟨run ++ before, after, .inr ⟨before, rfl, h⟩, by
            rw [hstart, List.length_append]; omega⟩
      · rintro ⟨before, after, ⟨rfl, hrun', rfl⟩ | ⟨before', rfl, h⟩, hstart⟩
        · exact .inl (Entry.ext hstart hrun')
        · exact .inr ⟨before', after, h, by rw [hstart, List.length_append]; omega⟩

/-- The entries come one after another. -/
theorem pairwise_entriesFrom (pos : Nat) (rest : List UInt8) :
    (entriesFrom pos rest).Pairwise fun d e => d.start < e.start := by
  fun_induction entriesFrom pos rest with
  | case1 pos => exact .nil
  | case2 pos b bs hb ih => exact ih
  | case3 pos b bs hb run ih =>
      refine List.pairwise_cons.2 ⟨fun e he => ?_, ih⟩
      obtain ⟨before, -, -, hstart⟩ := mem_entriesFrom_iff.1 he
      have hpos : 0 < run.length := Nat.succ_pos _
      dsimp only
      omega

/-- The entries of a text are its longest runs of bytes that are not white, in their order. -/
structure AreEntries (text : List UInt8) (es : List Entry) : Prop where
  mem_iff : ∀ e, e ∈ es ↔
    ∃ before after, IsEntry text before e.run after ∧ e.start = before.length
  ascending : es.Pairwise fun d e => d.start < e.start

theorem areEntries (text : List UInt8) : AreEntries text (entries text) where
  mem_iff e := by
    rw [entries, mem_entriesFrom_iff]
    simp only [Nat.zero_add]
  ascending := pairwise_entriesFrom 0 text

/-- No two entries start at one place. -/
theorem AreEntries.eq_of_start {text : List UInt8} {es : List Entry} (h : AreEntries text es)
    {d e : Entry} (hd : d ∈ es) (he : e ∈ es) (hstart : d.start = e.start) : d = e := by
  have hnodup : (es.map Entry.start).Nodup :=
    (List.pairwise_map.2 h.ascending).imp Nat.ne_of_lt
  exact List.inj_on_of_nodup_map hnodup hd he hstart

/-! ### Reading entry by entry -/

theorem continuesInteger_of_blank {b : UInt8} (h : isBlank b = true) :
    continuesInteger true b = false := by
  obtain rfl | rfl | rfl | rfl := isBlank_iff.1 h <;> rfl

namespace WordList

/-- The word of an entry. -/
def wordOf : List UInt8 → Except Fault Word
  | [] => .error .expectedNumber
  | b :: bs =>
    if isDigit b then
      entry b (b :: bs.takeWhile (continuesInteger true)) (bs.dropWhile (continuesInteger true))
    else .error .expectedNumber

section Entry

/-- The digits and underscores at the front of a text. -/
theorem exists_digits (bs : List UInt8) :
    ∃ digits tail, bs = digits ++ tail ∧ (∀ c ∈ digits, continuesInteger true c = true) ∧
      ∀ c ∈ tail.head?, continuesInteger true c = false :=
  ⟨_, _, List.takeWhile_append_dropWhile.symm, fun _ hc => List.mem_takeWhile_imp hc,
    head?_dropWhile _ bs⟩

variable {b : UInt8} {digits tail : List UInt8}

/-- The word of a number and of what the number leaves over. -/
theorem wordOf_append (hb : isDigit b = true)
    (hdigits : ∀ c ∈ digits, continuesInteger true c = true)
    (htail : ∀ c ∈ tail.head?, continuesInteger true c = false) :
    wordOf (b :: (digits ++ tail)) = entry b (b :: digits) tail := by
  rw [wordOf, if_pos hb, takeWhile_run hdigits htail, dropWhile_run hdigits htail]

/-- White after an entry is like the end of the text. -/
theorem entry_append {rest : List UInt8} (hrest : ∀ c ∈ rest.head?, isBlank c = true) :
    entry b digits (tail ++ rest) = entry b digits tail := by
  cases tail with
  | cons c cs => rfl
  | nil =>
      cases rest with
      | nil => rfl
      | cons c cs => simp [entry, hrest c rfl]

/-- Nothing is left over of an entry that is a word. -/
theorem tail_eq_nil {w : Word} (htail : ∀ c ∈ tail, isBlank c = false)
    (h : entry b digits tail = .ok w) : tail = [] := by
  cases tail with
  | nil => rfl
  | cons c cs =>
      unfold entry at h
      split at h
      · cases h
      · simp [htail c List.mem_cons_self] at h

end Entry

/-- Reading an entry and what comes after it. -/
theorem readFrom_run (pos : Nat) {run rest : List UInt8} (hne : run ≠ [])
    (hrun : ∀ b ∈ run, isSolid b = true) (hrest : ∀ b ∈ rest.head?, isSolid b = false) :
    readFrom pos (run ++ rest) =
      ((wordOf run).mapError (Prod.mk pos) >>= fun w =>
        readFrom (pos + run.length) rest >>= fun ws => pure (w :: ws)) := by
  have hsolid : ∀ b ∈ run, isBlank b = false := fun b hb => by simpa [isSolid] using hrun b hb
  have hblank : ∀ b ∈ rest.head?, isBlank b = true := fun b hb =>
    isSolid_eq_false_iff.1 (hrest b hb)
  obtain ⟨b, bs, rfl⟩ := List.exists_cons_of_ne_nil hne
  obtain ⟨hb, hbs⟩ := List.forall_mem_cons.1 hsolid
  rw [List.cons_append, readFrom, if_neg (by simp [hb])]
  cases hdigit : isDigit b with
  | false => simp [wordOf, hdigit, Except.mapError, bind, Except.bind]
  | true =>
      -- the number, and what it leaves over of the entry
      obtain ⟨digits, tail, rfl, hdigits, htail⟩ := exists_digits bs
      have hafter : ∀ c ∈ (tail ++ rest).head?, continuesInteger true c = false := by
        cases tail with
        | nil => exact fun c hc => continuesInteger_of_blank (hblank c hc)
        | cons c cs => exact htail
      rw [wordOf_append hdigit hdigits htail, List.append_assoc, takeWhile_run hdigits hafter,
        dropWhile_run hdigits hafter, if_pos rfl]
      dsimp only
      rw [entry_append hblank]
      cases hentry : entry b (b :: digits) tail with
      | error fault => rfl
      | ok w =>
          obtain rfl := tail_eq_nil (fun c hc => hbs c (List.mem_append_right _ hc)) hentry
          simp only [List.nil_append, List.append_nil, Except.mapError]
          rw [map_eq_pure_bind]
          rfl

/-- **A list of words is read entry by entry**, and the first entry that is not a word ends it. -/
theorem readFrom_eq (pos : Nat) (text : List UInt8) :
    readFrom pos text =
      (entriesFrom pos text).mapM fun e => (wordOf e.run).mapError (Prod.mk e.start) := by
  fun_induction entriesFrom pos text with
  | case1 pos => rw [readFrom_nil]; rfl
  | case2 pos b bs hb ih => rw [readFrom, if_pos hb, ih]
  | case3 pos b bs hb run ih =>
      obtain ⟨htext, hrun, hrest⟩ := exists_run (isSolid_of_not hb) bs
      rw [htext, readFrom_run pos (List.cons_ne_nil b _) hrun hrest, List.mapM_cons, ih]

/-! ### Which entries are words -/

theorem fit_eq_ok_iff {value : UInt64} {w : Word} :
    entry.fit value = .ok w ↔ value.toNat < 2 ^ 36 ∧ w = Word.ofNat value.toNat := by
  have hmax : value.toNat ≤ Word.maxValue ↔ value.toNat < 2 ^ 36 := by
    rw [Word.maxValue]
    omega
  simp only [entry.fit, hmax]
  split <;> simp_all [eq_comm]

theorem entry_nil_eq_ok_iff {b : UInt8} {digits : List UInt8} {w : Word} :
    entry b digits [] = .ok w ↔
      ¬(b = 0x30 ∧ digits.any isEightOrNine) ∧
        entry.fit (literalValue (radixOf true b) digits) = .ok w := by
  rw [entry]
  split <;> simp_all

/-- The literals, in the words of the recognizers. -/
theorem isLiteral_cons_iff {b : UInt8} {bs : List UInt8} (hb : isDigit b = true) :
    IsLiteral (b :: bs) ↔
      (∀ c ∈ bs, continuesInteger true c = true) ∧ ¬(b = 0x30 ∧ (b :: bs).any isEightOrNine) := by
  have hcontinues : ∀ c, continuesInteger true c = true ↔ isDigit c = true ∨ c = 0x5F := by
    simp [continuesInteger]
  have hoctal : ∀ c : UInt8, isEightOrNine c = false ↔ c ≠ 0x38 ∧ c ≠ 0x39 := by
    simp [isEightOrNine]
  simp only [hcontinues, not_and, Bool.not_eq_true, List.any_eq_false, hoctal]
  constructor
  · intro h
    exact ⟨fun c hc => h.rest c (List.mem_cons_of_mem _ hc), fun heq => h.octal (congrArg some heq)⟩
  · rintro ⟨hrest, hdigits⟩
    exact ⟨⟨b, rfl, hb⟩, List.forall_mem_cons.2 ⟨.inl hb, hrest⟩, fun heq =>
      hdigits (Option.some.inj heq)⟩

/-- **An entry is a word** if it is a literal whose value, modulo the size of a 64-bit number, is that
of a word. -/
theorem wordOf_eq_ok_iff {run : List UInt8} (hrun : ∀ b ∈ run, isBlank b = false) {w : Word} :
    wordOf run = .ok w ↔
      IsLiteral run ∧ number run % 2 ^ 64 < 2 ^ 36 ∧ w = Word.ofNat (number run % 2 ^ 64) := by
  cases run with
  | nil =>
      refine ⟨nofun, fun h => ?_⟩
      obtain ⟨b, hb, -⟩ := h.1.first
      cases hb
  | cons b bs =>
      cases hdigit : isDigit b with
      | false =>
          refine ⟨fun h => by simp [wordOf, hdigit] at h, fun h => ?_⟩
          obtain ⟨c, hc, hfirst⟩ := h.1.first
          rw [← Option.some.inj hc, hdigit] at hfirst
          cases hfirst
      | true =>
          obtain ⟨digits, tail, rfl, hdigits, htail⟩ := exists_digits bs
          rw [wordOf_append hdigit hdigits htail, isLiteral_cons_iff hdigit]
          cases tail with
          | nil =>
              rw [List.append_nil, entry_nil_eq_ok_iff, fit_eq_ok_iff, toNat_value, and_assoc]
              exact (and_iff_right hdigits).symm
          | cons c cs =>
              constructor
              · intro h
                have hsolid : ∀ d ∈ c :: cs, isBlank d = false := fun d hd =>
                  hrun d (List.mem_cons_of_mem _ (List.mem_append_right _ hd))
                cases tail_eq_nil hsolid h
              · rintro ⟨⟨hcontinues, -⟩, -⟩
                have hc := hcontinues c (List.mem_append_right _ List.mem_cons_self)
                rw [htail c rfl] at hc
                cases hc

/-- An entry is a literal, and the number that it stands for, counted as given, is that of a word. -/
def Fits (value : List UInt8 → Nat) (e : Entry) : Prop :=
  IsLiteral e.run ∧ value e.run < 2 ^ 36

/-- The number that a literal stands for, modulo the size of a 64-bit number. -/
def reduced (literal : List UInt8) : Nat := number literal % 2 ^ 64

theorem word_eq_ok_iff {text : List UInt8} {e : Entry} (he : e ∈ entries text) {w : Word} :
    (wordOf e.run).mapError (Prod.mk e.start) = .ok w ↔
      Fits reduced e ∧ w = Word.ofNat (reduced e.run) := by
  obtain ⟨before, after, hentry, -⟩ := mem_entriesFrom_iff.1 he
  rw [mapError_eq_ok, wordOf_eq_ok_iff hentry.solid, ← and_assoc]
  rfl

/-- **A text is a list of words** if each of its entries is one. -/
theorem read_eq_ok_iff {text : List UInt8} {ws : List Word} :
    read text = .ok ws ↔
      (∀ e ∈ entries text, Fits reduced e) ∧
        ws = (entries text).map fun e => Word.ofNat (reduced e.run) := by
  rw [read, readFrom_eq]
  exact mapM_eq_ok_of_iff fun e he w => word_eq_ok_iff he

/-- A text that is not a list of words is refused where its first entry starts that is not one. -/
theorem read_eq_error_iff {text : List UInt8} {position : Nat} :
    (∃ fault, read text = .error (position, fault)) ↔
      ∃ before e after, entries text = before ++ e :: after ∧
        (∀ d ∈ before, Fits reduced d) ∧ ¬Fits reduced e ∧ e.start = position := by
  have hok : ∀ e ∈ entries text,
      (∃ w, (wordOf e.run).mapError (Prod.mk e.start) = .ok w) ↔ Fits reduced e := by
    intro e he
    simp only [word_eq_ok_iff he, exists_and_left, exists_eq, and_true]
  have herror : ∀ e ∈ entries text,
      (∃ fault, (wordOf e.run).mapError (Prod.mk e.start) = .error (position, fault)) ↔
        ¬Fits reduced e ∧ e.start = position := by
    intro e he
    rw [← hok e he]
    cases wordOf e.run <;> simp [Except.mapError]
  rw [read, readFrom_eq]
  constructor
  · rintro ⟨fault, h⟩
    obtain ⟨before, e, after, hsplit, hbefore, he⟩ := mapM_eq_error.1 h
    have hmem : ∀ d ∈ before ++ e :: after, d ∈ entries text := fun d hd => by
      rwa [entries, hsplit]
    obtain ⟨hbefore', hafter⟩ := List.forall_mem_append.1 hmem
    exact ⟨before, e, after, hsplit, fun d hd => (hok d (hbefore' d hd)).1 (hbefore d hd),
      (herror e (hafter e List.mem_cons_self)).1 ⟨fault, he⟩⟩
  · rintro ⟨before, e, after, hsplit, hbefore, he⟩
    have hmem : ∀ d ∈ before ++ e :: after, d ∈ entries text := fun d hd => by rwa [hsplit]
    obtain ⟨hbefore', hafter⟩ := List.forall_mem_append.1 hmem
    obtain ⟨fault, he⟩ := (herror e (hafter e List.mem_cons_self)).2 he
    exact ⟨fault, mapM_eq_error.2 ⟨before, e, after, hsplit, fun d hd =>
      (hok d (hbefore' d hd)).2 (hbefore d hd), he⟩⟩

end WordList

end FileDirectory.Source
