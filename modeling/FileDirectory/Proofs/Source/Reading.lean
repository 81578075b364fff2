/-
**What a cursor recognizes.**

An integer and a symbol are told by their first byte and go on as long as they can.  A recognizer that
finds one moves the cursor past it, and leaves the cursor where it was if it finds none or complains.
Whatever is done with a cursor, its text stays the same and its place inside the text, and it moves back
only to a place that is asked for.

Main definitions:

* `FileDirectory.Source.LongestRun` — a run that begins a text and is as long as it can be;
* `FileDirectory.Source.Cursor.ReadsInteger`, `FileDirectory.Source.Cursor.ReadsSymbol` — what is
  expected of the recognizers;
* `FileDirectory.Source.Cursor.Call`, `FileDirectory.Source.Cursor.after` — what can be done with a
  cursor, and runs of it;
* `FileDirectory.Source.Cursor.StandsIn` — what is expected of a cursor after a run.

Main results:

* `FileDirectory.Source.Cursor.integer_cases`, `FileDirectory.Source.Cursor.symbol_cases` — all that
  the recognizers can do;
* `FileDirectory.Source.Cursor.call_cases` — all that a call can do to a cursor;
* `FileDirectory.Source.Cursor.recognizes` — the recognizers, and the cursor in every run of calls.
-/

import FileDirectory.Proofs.Source.Literal
import FileDirectory.Source.Cursor

set_option autoImplicit false

namespace FileDirectory.Source

/-! ### Longest runs -/

/-- A run of bytes that begins a text: its first byte is of one kind, its bytes are of another, and the
byte after it, if there is one, is not. -/
structure LongestRun (starts continues : UInt8 → Bool) (text run : List UInt8) : Prop where
  first : ∃ b ∈ run.head?, starts b = true
  rest : ∀ b ∈ run, continues b = true
  longest : ∃ after, text = run ++ after ∧ ∀ b ∈ after.head?, continues b = false

section LongestRun

variable {starts continues : UInt8 → Bool} {text run : List UInt8}

theorem LongestRun.takeWhile_eq (h : LongestRun starts continues text run) :
    text.takeWhile continues = run := by
  obtain ⟨after, rfl, hafter⟩ := h.longest
  exact takeWhile_run h.rest hafter

/-- A text has one longest run. -/
theorem LongestRun.unique {run' : List UInt8} (h : LongestRun starts continues text run)
    (h' : LongestRun starts continues text run') : run' = run :=
  h'.takeWhile_eq.symm.trans h.takeWhile_eq

theorem LongestRun.length_pos (h : LongestRun starts continues text run) : 1 ≤ run.length := by
  obtain ⟨b, hb, -⟩ := h.first
  obtain ⟨bs, rfl⟩ := List.head?_eq_some_iff.1 hb
  exact Nat.succ_pos _

theorem LongestRun.length_le (h : LongestRun starts continues text run) :
    run.length ≤ text.length := by
  obtain ⟨after, rfl, -⟩ := h.longest
  rw [List.length_append]
  exact Nat.le_add_right _ _

/-- The text starts with the first byte of the run. -/
theorem LongestRun.head (h : LongestRun starts continues text run) :
    ∃ b ∈ text.head?, starts b = true := by
  obtain ⟨b, hb, hstarts⟩ := h.first
  obtain ⟨bs, rfl⟩ := List.head?_eq_some_iff.1 hb
  obtain ⟨after, rfl, -⟩ := h.longest
  exact ⟨b, rfl, hstarts⟩

/-- A byte that starts a run, and the bytes that continue it. -/
theorem longestRun_cons {b : UInt8} (hstarts : starts b = true) (hcontinues : continues b = true)
    (bs : List UInt8) :
    LongestRun starts continues (b :: bs) (b :: bs.takeWhile continues) := by
  obtain ⟨htext, hrun, hrest⟩ := exists_run hcontinues bs
  exact ⟨⟨b, rfl, hstarts⟩, hrun, _, htext, hrest⟩

end LongestRun

/-- What can stand at the front of a text: no run, or a longest one. -/
theorem exists_longestRun_or {starts continues : UInt8 → Bool}
    (h : ∀ b, starts b = true → continues b = true) (text : List UInt8) :
    (∀ b ∈ text.head?, starts b = false) ∨ ∃ run, LongestRun starts continues text run := by
  cases text with
  | nil => exact .inl nofun
  | cons b bs =>
      cases hb : starts b with
      | false =>
          refine .inl ?_
          rintro c ⟨⟩
          exact hb
      | true => exact .inr ⟨_, longestRun_cons hb (h b hb) bs⟩

/-! ### Literals -/

/-- The radix of a literal: eight if octal is allowed and its first digit is a zero, else ten. -/
def radixFor (octal : Bool) (literal : List UInt8) : Nat :=
  if octal then writtenRadix literal else 10

theorem toNat_radixOf_head (octal : Bool) (b : UInt8) (bs : List UInt8) :
    (radixOf octal b).toNat = radixFor octal (b :: bs) := by
  cases octal with
  | false => rfl
  | true => exact toNat_radixOf b bs

theorem continuesInteger_of_digit (separator : Bool) {b : UInt8} (h : isDigit b = true) :
    continuesInteger separator b = true := by
  simp [continuesInteger, h]

/-- The value of what has been read of a literal and of the bytes that follow. -/
def valueFrom (radix value : UInt64) (bs : List UInt8) : UInt64 :=
  bs.foldl (fun v b => if isDigit b then v * radix + (b - 0x30).toUInt64 else v) value

namespace Cursor

/-- **Reading on byte by byte** is reading the longest run at once. -/
theorem literal_eq (c : Cursor) (radix : UInt64) (separator : Bool) (value : UInt64) :
    c.literal radix separator value =
      (valueFrom radix value (c.rest.takeWhile (continuesInteger separator)),
        c.skip (c.rest.takeWhile (continuesInteger separator)).length) := by
  fun_induction literal c radix separator value with
  | case1 c value hrest => rw [hrest]; rfl
  | case2 c value b bs hrest hdigit ih =>
      have hcontinues := continuesInteger_of_digit separator hdigit
      rw [ih, rest_skip, hrest, List.drop_one, List.tail_cons, List.takeWhile_cons_of_pos hcontinues,
        skip_skip, List.length_cons, Nat.add_comm 1, valueFrom, valueFrom, List.foldl_cons, if_pos hdigit]
  | case3 c value b bs hrest hdigit hseparator ih =>
      have hcontinues : continuesInteger separator b = true := by
        simpa [continuesInteger] using Or.inr hseparator
      rw [ih, rest_skip, hrest, List.drop_one, List.tail_cons, List.takeWhile_cons_of_pos hcontinues,
        skip_skip, List.length_cons, Nat.add_comm 1, valueFrom, valueFrom, List.foldl_cons,
        if_neg hdigit]
  | case4 c value b bs hrest hdigit hseparator =>
      have hcontinues : ¬continuesInteger separator b = true := by
        simp_all [continuesInteger]
      rw [hrest, List.takeWhile_cons_of_neg hcontinues]
      rfl

/-! ### What is expected of the recognizers -/

/-- **Integers.**  There is none exactly if no digit is at the cursor, which then stays where it is.
Otherwise the integer is the longest run of digits, and of separators where they are allowed; its value
is the number of its digits in the radix that its first digit tells, modulo the size of a 64-bit number;
and the cursor comes to stand after it. -/
structure ReadsInteger (octal separator : Bool) (c : Cursor) : Prop where
  none_iff : ∀ left, c.integer octal separator = (none, left) ↔
    (∀ b ∈ c.rest.head?, isDigit b = false) ∧ left = c
  some_iff : ∀ value left, c.integer octal separator = (some value, left) ↔
    ∃ run, LongestRun isDigit (continuesInteger separator) c.rest run ∧
      value.toNat = exactValue (radixFor octal run) run % 2 ^ 64 ∧ left = c.skip run.length

/-- **Symbols.**  There is none exactly if neither a letter nor a dollar sign is at the cursor, which
then stays where it is.  Otherwise the symbol is the longest run.  If it is too long, it is the complaint
and the cursor stays where it is; else the cursor comes to stand after it. -/
structure ReadsSymbol (c : Cursor) : Prop where
  none_iff : ∀ left, Reader.symbol.on c = (.ok none, left) ↔
    (∀ b ∈ c.rest.head?, startsSymbol b = false) ∧ left = c
  error_iff : ∀ fault left, Reader.symbol.on c = (.error fault, left) ↔
    ∃ run, LongestRun startsSymbol continuesSymbol c.rest run ∧ 12 < run.length ∧
      fault = .symbolTooLong (latin1 run) ∧ left = c
  some_iff : ∀ name left, Reader.symbol.on c = (.ok (some name), left) ↔
    ∃ run, LongestRun startsSymbol continuesSymbol c.rest run ∧
      (1 ≤ run.length ∧ run.length ≤ 12) ∧ name = latin1 run ∧ left = c.skip run.length

/-! ### Integers -/

section Integer

variable {octal separator : Bool} {c : Cursor} {run : List UInt8}

theorem integer_of_none (h : ∀ b ∈ c.rest.head?, isDigit b = false) :
    c.integer octal separator = (none, c) := by
  rw [integer, peek]
  cases hrest : c.rest with
  | nil => rfl
  | cons b bs =>
      have hb : ¬isDigit b = true := by simp [h b (by rw [hrest]; rfl)]
      simp only [if_neg hb]

theorem integer_of_run (hrun : LongestRun isDigit (continuesInteger separator) c.rest run)
    {value : UInt64} (hvalue : value.toNat = exactValue (radixFor octal run) run % 2 ^ 64) :
    c.integer octal separator = (some value, c.skip run.length) := by
  obtain ⟨b, hb, hdigit⟩ := hrun.first
  obtain ⟨bs, rfl⟩ := List.head?_eq_some_iff.1 hb
  obtain ⟨after, hrest, -⟩ := hrun.longest
  have hpeek : c.peek = .ok b := by rw [peek, hrest]; rfl
  have hliteral := c.literal_eq (radixOf octal b) separator 0
  rw [hrun.takeWhile_eq] at hliteral
  have hsame : valueFrom (radixOf octal b) 0 (b :: bs) = value := by
    refine UInt64.toNat_inj.1 (Eq.trans ?_ hvalue.symm)
    rw [← toNat_radixOf_head octal b bs]
    exact toNat_literalValue _ _
  rw [integer, hpeek]
  simp only [if_pos hdigit, hliteral, hsame]

/-- **All that reading an integer can do.** -/
theorem integer_cases (octal separator : Bool) (c : Cursor) :
    (∀ b ∈ c.rest.head?, isDigit b = false) ∧ c.integer octal separator = (none, c) ∨
    ∃ run value, LongestRun isDigit (continuesInteger separator) c.rest run ∧
      value.toNat = exactValue (radixFor octal run) run % 2 ^ 64 ∧
      c.integer octal separator = (some value, c.skip run.length) := by
  obtain hnone | ⟨run, hrun⟩ := exists_longestRun_or
    (fun b hb => continuesInteger_of_digit separator hb) c.rest
  · exact .inl ⟨hnone, integer_of_none hnone⟩
  · have hvalue : (UInt64.ofNat (exactValue (radixFor octal run) run)).toNat =
        exactValue (radixFor octal run) run % 2 ^ 64 := UInt64.toNat_ofNat
    exact .inr ⟨run, _, hrun, hvalue, integer_of_run hrun hvalue⟩

/-- Integers are recognized as they have to be. -/
theorem readsInteger (octal separator : Bool) (c : Cursor) : c.ReadsInteger octal separator := by
  have hcases := integer_cases octal separator c
  constructor
  case none_iff =>
    intro left
    constructor
    · intro h
      obtain ⟨hnone, heq⟩ | ⟨run, value, -, -, heq⟩ := hcases
      · exact ⟨hnone, (Prod.mk.inj (heq.symm.trans h)).2.symm⟩
      · cases heq.symm.trans h
    · rintro ⟨hnone, rfl⟩
      exact integer_of_none hnone
  case some_iff =>
    intro value left
    constructor
    · intro h
      obtain ⟨hnone, heq⟩ | ⟨run, value, hrun, hvalue, heq⟩ := hcases
      · cases heq.symm.trans h
      · cases heq.symm.trans h
        exact ⟨run, hrun, hvalue, rfl⟩
    · rintro ⟨run, hrun, hvalue, rfl⟩
      exact integer_of_run hrun hvalue

end Integer

/-! ### Symbols -/

section Symbol

variable {c : Cursor} {run : List UInt8}

theorem symbol?_of_run {text : List UInt8}
    (h : LongestRun startsSymbol continuesSymbol text run) :
    symbol? text = if 12 < run.length then .error run else .ok (some run) := by
  obtain ⟨b, hb, hstarts⟩ := h.head
  obtain ⟨bs, rfl⟩ := List.head?_eq_some_iff.1 hb
  rw [← h.takeWhile_eq, List.takeWhile_cons_of_pos (startsSymbol_continues hstarts), symbol?,
    symbolRun, if_pos hstarts]
  rfl

theorem symbol_of_none (h : ∀ b ∈ c.rest.head?, startsSymbol b = false) :
    Reader.symbol.on c = (.ok none, c) := by
  rw [Reader.on_symbol]
  cases hrest : c.rest with
  | nil => rfl
  | cons b bs =>
      have hb : ¬startsSymbol b = true := by simp [h b (by rw [hrest]; rfl)]
      rw [symbol?, symbolRun, if_neg hb]

theorem symbol_of_long (hrun : LongestRun startsSymbol continuesSymbol c.rest run)
    (hlong : 12 < run.length) :
    Reader.symbol.on c = (.error (.symbolTooLong (latin1 run)), c) := by
  rw [Reader.on_symbol, symbol?_of_run hrun, if_pos hlong]

theorem symbol_of_short (hrun : LongestRun startsSymbol continuesSymbol c.rest run)
    (hshort : run.length ≤ 12) :
    Reader.symbol.on c = (.ok (some (latin1 run)), c.skip run.length) := by
  rw [Reader.on_symbol, symbol?_of_run hrun, if_neg (Nat.not_lt.2 hshort)]

/-- **All that reading a symbol can do.** -/
theorem symbol_cases (c : Cursor) :
    (∀ b ∈ c.rest.head?, startsSymbol b = false) ∧ Reader.symbol.on c = (.ok none, c) ∨
    (∃ run, LongestRun startsSymbol continuesSymbol c.rest run ∧ 12 < run.length ∧
      Reader.symbol.on c = (.error (.symbolTooLong (latin1 run)), c)) ∨
    ∃ run, LongestRun startsSymbol continuesSymbol c.rest run ∧ run.length ≤ 12 ∧
      Reader.symbol.on c = (.ok (some (latin1 run)), c.skip run.length) := by
  obtain hnone | ⟨run, hrun⟩ := exists_longestRun_or (fun _ => startsSymbol_continues) c.rest
  · exact .inl ⟨hnone, symbol_of_none hnone⟩
  · obtain hlong | hshort := Nat.lt_or_ge 12 run.length
    · exact .inr (.inl ⟨run, hrun, hlong, symbol_of_long hrun hlong⟩)
    · exact .inr (.inr ⟨run, hrun, hshort, symbol_of_short hrun hshort⟩)

/-- Symbols are recognized as they have to be. -/
theorem readsSymbol (c : Cursor) : c.ReadsSymbol := by
  have hcases := c.symbol_cases
  constructor
  case none_iff =>
    intro left
    constructor
    · intro h
      obtain ⟨hnone, heq⟩ | ⟨run, -, -, heq⟩ | ⟨run, -, -, heq⟩ := hcases
      · exact ⟨hnone, (Prod.mk.inj (heq.symm.trans h)).2.symm⟩
      · cases heq.symm.trans h
      · cases heq.symm.trans h
    · rintro ⟨hnone, rfl⟩
      exact symbol_of_none hnone
  case error_iff =>
    intro fault left
    constructor
    · intro h
      obtain ⟨-, heq⟩ | ⟨run, hrun, hlong, heq⟩ | ⟨run, -, -, heq⟩ := hcases
      · cases heq.symm.trans h
      · cases heq.symm.trans h
        exact ⟨run, hrun, hlong, rfl, rfl⟩
      · cases heq.symm.trans h
    · rintro ⟨run, hrun, hlong, rfl, rfl⟩
      exact symbol_of_long hrun hlong
  case some_iff =>
    intro name left
    constructor
    · intro h
      obtain ⟨-, heq⟩ | ⟨run, -, -, heq⟩ | ⟨run, hrun, hshort, heq⟩ := hcases
      · cases heq.symm.trans h
      · cases heq.symm.trans h
      · cases heq.symm.trans h
        exact ⟨run, hrun, ⟨hrun.length_pos, hshort⟩, rfl, rfl⟩
    · rintro ⟨run, hrun, ⟨-, hshort⟩, rfl, rfl⟩
      exact symbol_of_short hrun hshort

end Symbol

/-! ### Runs of calls -/

/-- What can be done with a cursor. -/
inductive Call where
  | advance (n : Nat)
  | moveTo (place : Nat)
  | next
  | character (b : UInt8)
  | skipBlanks
  | integer (octal separator : Bool)
  | symbol
  /-- Looks at the place, at the byte there or at what is left of the text. -/
  | look

/-- What becomes of a cursor. -/
def call (c : Cursor) : Call → Cursor
  | .advance n => ((Reader.advance n).on c).2
  | .moveTo place => ((Reader.moveTo place).on c).2
  | .next => (Reader.next.on c).2
  | .character b => (c.character b).2
  | .skipBlanks => c.skipBlanks.2
  | .integer octal separator => (c.integer octal separator).2
  | .symbol => (Reader.symbol.on c).2
  | .look => c

/-- What becomes of a cursor in a run of calls. -/
def after (c : Cursor) : List Call → Cursor
  | [] => c
  | a :: as => (c.call a).after as

@[simp] theorem after_nil (c : Cursor) : c.after [] = c := rfl

@[simp] theorem after_cons (c : Cursor) (a : Call) (as : List Call) :
    c.after (a :: as) = (c.call a).after as := rfl

/-- **All that a call can do to a cursor**: it moves it forward within what is left of the text, or to a
place in the text that is asked for. -/
theorem call_cases (c : Cursor) (a : Call) :
    (∃ n ≤ c.remaining, c.call a = c.skip n) ∨
      ∃ place ≤ c.text.length, a = .moveTo place ∧ c.call a = { c with pos := place } := by
  -- whatever fails leaves the cursor where it is
  have hstays : ∃ n ≤ c.remaining, c = c.skip n := ⟨0, Nat.zero_le _, rfl⟩
  have hbyte : ∀ {b bs}, c.rest = b :: bs → 1 ≤ c.remaining := by
    intro b bs hrest
    rw [← length_rest, hrest]
    exact Nat.succ_pos _
  cases a with
  | advance n =>
      rw [call, Reader.on_advance]
      split
      case isTrue hin => exact .inl ⟨n, by rw [remaining]; omega, rfl⟩
      case isFalse => exact .inl hstays
  | moveTo place =>
      rw [call, Reader.on_moveTo]
      split
      case isTrue hin => exact .inr ⟨place, hin, rfl, rfl⟩
      case isFalse => exact .inl hstays
  | next =>
      rw [call, Reader.on_next]
      cases hrest : c.rest with
      | nil => exact .inl hstays
      | cons b bs => exact .inl ⟨1, hbyte hrest, rfl⟩
  | character b =>
      rw [call, character]
      split
      case isTrue hhead =>
        obtain ⟨bs, hrest⟩ := List.head?_eq_some_iff.1 hhead
        exact .inl ⟨1, hbyte hrest, rfl⟩
      case isFalse => exact .inl hstays
  | skipBlanks =>
      have hle := (List.takeWhile_sublist isBlank (l := c.rest)).length_le
      rw [length_rest] at hle
      exact .inl ⟨_, hle, rfl⟩
  | integer octal separator =>
      rw [call]
      obtain ⟨-, heq⟩ | ⟨run, value, hrun, -, heq⟩ := integer_cases octal separator c
      · rw [heq]
        exact .inl hstays
      · rw [heq]
        exact .inl ⟨run.length, c.length_rest ▸ hrun.length_le, rfl⟩
  | symbol =>
      rw [call]
      obtain ⟨-, heq⟩ | ⟨run, -, -, heq⟩ | ⟨run, hrun, -, heq⟩ := c.symbol_cases
      · rw [heq]
        exact .inl hstays
      · rw [heq]
        exact .inl hstays
      · rw [heq]
        exact .inl ⟨run.length, c.length_rest ▸ hrun.length_le, rfl⟩
  | look => exact .inl hstays

/-- A call leaves the text as it is. -/
theorem text_call (c : Cursor) (a : Call) : (c.call a).text = c.text := by
  obtain ⟨n, -, heq⟩ | ⟨place, -, -, heq⟩ := c.call_cases a
  · rw [heq, text_skip]
  · rw [heq]

/-- A cursor inside its text stays inside. -/
theorem pos_call_le {c : Cursor} (h : c.pos ≤ c.text.length) (a : Call) :
    (c.call a).pos ≤ c.text.length := by
  obtain ⟨n, hn, heq⟩ | ⟨place, hin, -, heq⟩ := c.call_cases a
  · rw [remaining] at hn
    rw [heq, pos_skip]
    omega
  · rw [heq]
    exact hin

/-- Only a call for a place moves a cursor back, and it moves it there. -/
theorem moves_back {c : Cursor} {a : Call} (h : (c.call a).pos < c.pos) :
    a = .moveTo (c.call a).pos := by
  obtain ⟨n, -, heq⟩ | ⟨place, -, rfl, heq⟩ := c.call_cases a
  · rw [heq, pos_skip] at h
    omega
  · rw [heq]

/-- A run leaves the text as it is and the cursor inside it. -/
theorem inside_after {c : Cursor} (h : c.pos ≤ c.text.length) (calls : List Call) :
    (c.after calls).text = c.text ∧ (c.after calls).pos ≤ c.text.length := by
  induction calls generalizing c with
  | nil => exact ⟨rfl, h⟩
  | cons a as ih =>
      have htext := c.text_call a
      have hpos := pos_call_le h a
      rw [← htext] at hpos
      rw [after_cons, ← htext]
      exact ih hpos

/-- A cursor stands in a text or at its end, and only a call for an earlier place moves it back. -/
structure StandsIn (text : List UInt8) (c : Cursor) : Prop where
  text_eq : c.text = text
  inside : c.pos ≤ text.length
  back : ∀ a, (c.call a).pos < c.pos → a = .moveTo (c.call a).pos

/-- **The recognizers accept exactly what they should**, wherever the cursor stands, and in every run of
calls the cursor stands in its text. -/
theorem recognizes :
    (∀ c : Cursor, (∀ octal separator, c.ReadsInteger octal separator) ∧ c.ReadsSymbol) ∧
    ∀ text calls, ((ofText text).after calls).StandsIn text := by
  refine ⟨fun c => ⟨fun octal separator => readsInteger octal separator c, readsSymbol c⟩,
    fun text calls => ?_⟩
  have hstart : (ofText text).pos ≤ (ofText text).text.length := Nat.zero_le _
  obtain ⟨htext, hpos⟩ := inside_after hstart calls
  exact ⟨htext, hpos, fun a hback => moves_back hback⟩

end Cursor

end FileDirectory.Source
