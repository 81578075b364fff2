/-
**Clients and calls.**

Every operation on the directory is carried out for some run, at some time, and possibly under a
deadline.  A call that finds its deadline passed before it has changed anything gives up.

Main definitions:

* `FileDirectory.Client` — the run that an operation is carried out for;
* `FileDirectory.Call` — a client, the reading of the clock and the patience of the caller;
* `FileDirectory.Call.expired` — whether the deadline has passed at a given check.

Main results:

* `FileDirectory.Call.expired_mono` — a deadline that has passed stays passed.
-/

set_option autoImplicit false

namespace FileDirectory

/-- A run, as the directory knows it. -/
structure Client where
  host : Nat
  run : String
  user : String
  deriving DecidableEq, Repr

/-- The text of a client. -/
def Client.text (c : Client) : String := s!"{c.run}/{c.user}@{c.host}"

/-- The circumstances of one call. -/
structure Call where
  /-- The run that the call is made for. -/
  client : Client
  /-- The reading of the clock, in seconds. -/
  now : Nat
  /-- How many times the deadline is looked at before it has passed, if there is a deadline. -/
  patience : Option Nat := none
  deriving DecidableEq, Repr

namespace Call

/-- Whether the deadline has passed when it is looked at after `earlier` earlier looks. -/
def expired (call : Call) (earlier : Nat) : Bool :=
  call.patience.any fun n => n ≤ earlier

/-- A deadline that has passed stays passed. -/
theorem expired_mono {call : Call} {m n : Nat} (h : m ≤ n) (hm : call.expired m = true) :
    call.expired n = true := by
  unfold expired at *
  cases hp : call.patience with
  | none => simp [hp] at hm
  | some p =>
    simp only [hp, Option.any_some, decide_eq_true_eq] at hm ⊢
    omega

/-- The rest of a call whose deadline has been looked at `earlier` times. -/
def after (call : Call) (earlier : Nat) : Call :=
  { call with patience := call.patience.map (· - earlier) }

end Call

end FileDirectory
