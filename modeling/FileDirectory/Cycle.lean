/-
**F-cycles.**

The cycles of a file set are numbered from 1 to 999 and then from 1 again.  A set holds a window of
cycles that ends at its highest cycle; the age of a cycle is its distance below the highest one,
counted across the wrap.

Main definitions:

* `FileDirectory.Cycle.next`, `FileDirectory.Cycle.age`, `FileDirectory.Cycle.ahead` — arithmetic
  on cycle numbers;
* `FileDirectory.CycleSpec` — how a caller names a cycle of a file set;
* `FileDirectory.CycleState` — the life of a cycle.

Main results:

* `FileDirectory.Cycle.age_self`, `FileDirectory.Cycle.age_next` — the highest cycle has age zero,
  and has age one below its successor;
* `FileDirectory.Cycle.age_lt` — every age is below 999.
-/

set_option autoImplicit false

namespace FileDirectory

namespace Cycle

/-! ### Cycle numbers -/

/-- The highest cycle number. -/
def highestNumber : Nat := 999

/-- The cycle after a given one. -/
def next (cycle : Nat) : Nat := if highestNumber ≤ cycle then 1 else cycle + 1

/-- How far `cycle` lies below `highest`.  The difference stops at zero; with numbers of thirty-two
bits it would underflow for a cycle that lies more than 999 above, which no catalog has but a medium
may. -/
def age (highest cycle : Nat) : Nat := (highest + highestNumber - cycle) % highestNumber

/-- How far `cycle` lies above `highest`; the same holds the other way round. -/
def ahead (highest cycle : Nat) : Nat := (cycle + highestNumber - highest) % highestNumber

theorem age_lt (highest cycle : Nat) : age highest cycle < highestNumber :=
  Nat.mod_lt _ (by decide)

@[simp] theorem age_self (cycle : Nat) : age cycle cycle = 0 := by
  simp [age]

theorem next_mem {cycle : Nat} : 1 ≤ next cycle ∧ next cycle ≤ highestNumber := by
  unfold next highestNumber
  split <;> omega

/-- The highest cycle is one below its successor. -/
theorem age_next {cycle : Nat} (h₁ : 1 ≤ cycle) (h₂ : cycle ≤ highestNumber) :
    age (next cycle) cycle = 1 := by
  unfold age next
  unfold highestNumber at *
  split <;> omega

end Cycle

/-! ### Naming a cycle -/

/-- How a caller names a cycle of a file set. -/
inductive CycleSpec where
  /-- A cycle number. -/
  | absolute (cycle : Nat)
  /-- The latest live cycle is 0, the one before it -1 and so on; the cycle being created is 1. -/
  | relative (offset : Int)
  /-- The latest live cycle, or the next one when a cycle is created. -/
  | unspecified
  deriving DecidableEq, Repr

namespace CycleSpec

/-- A number with its sign, zero being positive. -/
def signedText (n : Int) : String :=
  if n < 0 then s!"-{n.natAbs}" else s!"+{n.natAbs}"

/-- The text of a cycle name, written after the name of its file set. -/
def text : CycleSpec → String
  | absolute cycle => s!"({cycle})"
  | relative offset => s!"({signedText offset})"
  | unspecified => ""

/-- Cycle numbers go from 1 to 999, and offsets from -998 to 1. -/
def Valid : CycleSpec → Prop
  | absolute cycle => 1 ≤ cycle ∧ cycle ≤ Cycle.highestNumber
  | relative offset => -(Cycle.highestNumber : Int) < offset ∧ offset ≤ 1
  | unspecified => True

instance : (spec : CycleSpec) → Decidable spec.Valid
  | absolute _ => inferInstanceAs (Decidable (_ ∧ _))
  | relative _ => inferInstanceAs (Decidable (_ ∧ _))
  | unspecified => inferInstanceAs (Decidable True)

end CycleSpec

/-! ### The life of a cycle -/

/-- The life of a cycle.  A cycle that is created is being cataloged until its creator catalogs it,
or is live at once; a live cycle that is deleted while somebody has it assigned is being dropped
until the last assignment is released. -/
inductive CycleState where
  | cataloging
  | live
  | dropping
  | dropped
  deriving DecidableEq, Repr

namespace CycleState

/-- The text of a state. -/
def text : CycleState → String
  | cataloging => "cataloging"
  | live => "live"
  | dropping => "dropping"
  | dropped => "dropped"

/-- The states in the order of a cycle's life. -/
def all : List CycleState := [cataloging, live, dropping, dropped]

/-- Whether a cycle in this state counts as one of its file set. -/
def isCounted : CycleState → Bool
  | live | dropping => true
  | cataloging | dropped => false

end CycleState

end FileDirectory
