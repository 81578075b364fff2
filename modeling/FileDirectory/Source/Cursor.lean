/-
**A cursor over source text.**

A cursor is a place in a text.  A recognizer that matches moves the cursor past what it matched,
and one that does not match leaves it where it was; a cursor that is put back to an earlier place
takes up there again.

Main definitions:

* `FileDirectory.Source.Cursor` — a text and a place in it;
* `FileDirectory.Source.Reader` — what is done with a cursor, which may fail;
* `FileDirectory.Source.Reader.advance`, `FileDirectory.Source.Reader.moveTo` — motion;
* `FileDirectory.Source.Cursor.integer`, `FileDirectory.Source.Reader.symbol` — recognizers;
* `FileDirectory.Source.Fault` — what can go wrong.

Main results:

* `FileDirectory.Source.Cursor.rest_skip` — what is left after the cursor has moved;
* `FileDirectory.Source.Cursor.remaining_skip_lt` — moving past a byte leaves less;
* `FileDirectory.Source.Reader.on_advance` and its companions — what a reader comes to.
-/

import FileDirectory.Source.Recognize

set_option autoImplicit false

namespace FileDirectory.Source

/-- Why a cursor cannot go on. -/
inductive Fault where
  /-- The place asked for is outside the text. -/
  | invalidPosition (requested length : Nat)
  /-- There is nothing left to read. -/
  | outOfData
  /-- A symbol has more characters than a symbol may have. -/
  | symbolTooLong (symbol : String)
  deriving DecidableEq, Repr

/-- The text of a fault. -/
def Fault.message : Fault → String
  | .invalidPosition requested length =>
    s!"invalid position {requested} in text of length {length}"
  | .outOfData => "out of data"
  | .symbolTooLong symbol =>
    s!"symbol {symbol} is too long (the limit is {maxSymbolLength} characters)"

/-- A text and a place in it. -/
@[ext] structure Cursor where
  /-- The whole text. -/
  text : List UInt8
  /-- The place, counted from the start of the text. -/
  pos : Nat
  deriving DecidableEq, Repr

namespace Cursor

/-! ### Places -/

/-- A cursor at the start of a text. -/
def ofText (text : List UInt8) : Cursor := ⟨text, 0⟩

/-- What is left of the text. -/
def rest (c : Cursor) : List UInt8 := c.text.drop c.pos

/-- How much is left of the text. -/
def remaining (c : Cursor) : Nat := c.text.length - c.pos

@[simp] theorem length_rest (c : Cursor) : c.rest.length = c.remaining := by
  simp [rest, remaining]

/-- Whether nothing is left. -/
def atEnd (c : Cursor) : Bool := c.text.length ≤ c.pos

/-- The cursor `n` places further on. -/
def skip (c : Cursor) (n : Nat) : Cursor := ⟨c.text, c.pos + n⟩

@[simp] theorem text_skip (c : Cursor) (n : Nat) : (c.skip n).text = c.text := rfl

@[simp] theorem pos_skip (c : Cursor) (n : Nat) : (c.skip n).pos = c.pos + n := rfl

theorem skip_skip (c : Cursor) (m n : Nat) : (c.skip m).skip n = c.skip (m + n) := by
  rw [skip, skip, skip, Nat.add_assoc]

/-- What is left after the cursor has moved. -/
theorem rest_skip (c : Cursor) (n : Nat) : (c.skip n).rest = c.rest.drop n := by
  rw [rest, rest, List.drop_drop, text_skip, pos_skip]

/-- Moving past a byte leaves less. -/
theorem remaining_skip_lt {c : Cursor} {b : UInt8} {bs : List UInt8} (h : c.rest = b :: bs) :
    (c.skip 1).remaining < c.remaining := by
  rw [← length_rest, ← length_rest, rest_skip, h, List.drop_one, List.tail_cons, List.length_cons]
  exact Nat.lt_succ_self _

/-! ### Looking at what is left -/

/-- The byte at the cursor. -/
def peek (c : Cursor) : Except Fault UInt8 :=
  match c.rest with
  | [] => .error .outOfData
  | b :: _ => .ok b

/-- Whether the rest of the text starts with a token.  The cursor stays where it is. -/
def startsWith (c : Cursor) (token : List UInt8) : Bool :=
  token.isPrefixOf c.rest

/-- Whether the rest of the text starts with a token in capitals or small letters. -/
def startsWithFolded (c : Cursor) (token : List UInt8) : Bool :=
  (token.map foldCase).isPrefixOf (c.rest.map foldCase)

/-! ### Recognizers that cannot fail -/

/-- Moves past the byte `b` if it is the one at the cursor. -/
def character (c : Cursor) (b : UInt8) : Bool × Cursor :=
  if c.rest.head? = some b then (true, c.skip 1) else (false, c)

/-- Moves past white space; also says how much there was. -/
def skipBlanks (c : Cursor) : Nat × Cursor :=
  let n := (c.rest.takeWhile isBlank).length
  (n, c.skip n)

/-- Reads on in a literal up to its end, byte by byte; `value` is what has been read of it. -/
def literal (c : Cursor) (radix : UInt64) (separator : Bool) (value : UInt64) : UInt64 × Cursor :=
  match _h : c.rest with
  | [] => (value, c)
  | b :: _ =>
    if isDigit b then (c.skip 1).literal radix separator (value * radix + (b - 0x30).toUInt64)
    else if separator && b = 0x5F then (c.skip 1).literal radix separator value
    else (value, c)
  termination_by c.remaining
  decreasing_by all_goals exact remaining_skip_lt _h

/-- Moves past the integer at the cursor, if there is one. -/
def integer (c : Cursor) (octal separator : Bool) : Option UInt64 × Cursor :=
  match c.peek with
  | .error _ => (none, c)
  | .ok first =>
    if isDigit first then
      let (value, left) := c.literal (radixOf octal first) separator 0
      (some value, left)
    else (none, c)

end Cursor

/-! ### Readers -/

/-- Something that is done with a cursor, which may fail.  A cursor that has been moved by then is not
put back. -/
abbrev Reader := ExceptT Fault (StateM Cursor)

namespace Reader

/-- The answer of a reader that starts at a cursor, and what has become of the cursor. -/
def on {α : Type} (r : Reader α) (c : Cursor) : Except Fault α × Cursor :=
  r.run.run c

/-- The answer of a reader and what has become of the cursor, if it does not fail. -/
def result {α : Type} (r : Reader α) (c : Cursor) : Except Fault (α × Cursor) :=
  let (answer, left) := r.on c
  answer.map fun a => (a, left)

theorem on_get {α : Type} (next : Cursor → Reader α) (c : Cursor) :
    Reader.on (do next (← get)) c = (next c).on c := rfl

/-- The largest place that can be named. -/
def maxPosition : Nat := 0xFFFFFFFFFFFFFFFF

/-- Moves `n` places forward, if they are all in the text; the end itself can be reached. -/
def advance (n : Nat) : Reader Unit := do
  let c ← get
  if c.pos + n ≤ c.text.length then set (c.skip n)
  else throw (.invalidPosition (min (c.pos + n) maxPosition) c.text.length)

theorem on_advance (n : Nat) (c : Cursor) :
    (advance n).on c =
      if c.pos + n ≤ c.text.length then (.ok (), c.skip n)
      else (.error (.invalidPosition (min (c.pos + n) maxPosition) c.text.length), c) := by
  rw [advance, on_get]
  split <;> rfl

/-- Moves to the given place, which may be the end. -/
def moveTo (place : Nat) : Reader Unit := do
  let c ← get
  if place ≤ c.text.length then set { c with pos := place }
  else throw (.invalidPosition place c.text.length)

theorem on_moveTo (place : Nat) (c : Cursor) :
    (moveTo place).on c =
      if place ≤ c.text.length then (.ok (), { c with pos := place })
      else (.error (.invalidPosition place c.text.length), c) := by
  rw [moveTo, on_get]
  split <;> rfl

/-- Moves past the byte at the cursor. -/
def next : Reader UInt8 := do
  let b ← (← get).peek
  modify (·.skip 1)
  return b

theorem on_next (c : Cursor) :
    next.on c =
      match c.rest with
      | [] => (.error .outOfData, c)
      | b :: _ => (.ok b, c.skip 1) := by
  rw [next, on_get, Cursor.peek]
  cases c.rest with
  | nil => rfl
  | cons b bs => rfl

/-- Moves past the symbol at the cursor, if there is one. -/
def symbol : Reader (Option String) := do
  match symbol? (← get).rest with
  | .error run => throw (.symbolTooLong (latin1 run))
  | .ok none => return none
  | .ok (some run) =>
    modify (·.skip run.length)
    return some (latin1 run)

theorem on_symbol (c : Cursor) :
    symbol.on c =
      match symbol? c.rest with
      | .error run => (.error (.symbolTooLong (latin1 run)), c)
      | .ok none => (.ok none, c)
      | .ok (some run) => (.ok (some (latin1 run)), c.skip run.length) := by
  rw [symbol, on_get]
  cases symbol? c.rest with
  | error run => rfl
  | ok run? =>
    cases run? with
    | none => rfl
    | some run => rfl

end Reader

namespace Cursor

/-- The cursor `n` places further on, if they are all in the text. -/
def advance (c : Cursor) (n : Nat) : Except Fault Cursor :=
  Prod.snd <$> (Reader.advance n).result c

/-- The cursor at the given place, if it is in the text or its end. -/
def moveTo (c : Cursor) (place : Nat) : Except Fault Cursor :=
  Prod.snd <$> (Reader.moveTo place).result c

/-- The byte at the cursor, and the cursor past it. -/
def next (c : Cursor) : Except Fault (UInt8 × Cursor) := Reader.next.result c

/-- The symbol at the cursor, if there is one, and the cursor past it. -/
def symbol (c : Cursor) : Except Fault (Option String × Cursor) := Reader.symbol.result c

end Cursor

end FileDirectory.Source
