/-
**What a client gives up.**

A client that releases a share of a cycle which it may not have leaves of it what it leaves in
whatever state the catalog is: nobody else's assignments are touched, and giving up one assignment
after another comes to the same as giving up all of them at once.  So a client may release its cycles
one assignment at a time and in any order, and has the catalog that it has when it releases each of
them once and for all.

Main definitions:

* `FileDirectory.Catalog.yielded` — what is left of a cycle;
* `FileDirectory.Catalog.Regular` — what every state of a catalog is like;
* `FileDirectory.Catalog.relinquish`, `FileDirectory.Catalog.relinquishAll` — what is left of a catalog
  when a client was let release one cycle, or cycles in turn.

Main results:

* `FileDirectory.Catalog.iterate_yielded_one` — one assignment after another;
* `FileDirectory.Catalog.Regular.relinquishAll` — what is left of each cycle;
* `FileDirectory.Catalog.Regular.relinquishAll_eq` — in which order and in how many shares does not
  matter.
-/

import FileDirectory.Proofs.Catalog.Narrowed
import Mathlib.Logic.Function.Iterate

set_option autoImplicit false

namespace FileDirectory

/-! ### Giving up some more -/

namespace FileCycle

/-- Giving up one assignment of more than there are to give up, and then the others. -/
theorem dropHolder_dropHolder (client : Client) {count : Nat} {holders : List (Client × Nat)}
    (hcount : 0 < count) (hheld : (holders.lookup client).getD 0 = count + 1) :
    dropHolder client count (dropHolder client 1 holders) = dropHolder client (count + 1) holders := by
  induction holders with
  | nil => rfl
  | cons holder rest ih =>
      obtain ⟨first, n⟩ := holder
      by_cases heq : client = first
      · subst heq
        rw [List.lookup_cons_self, Option.getD_some] at hheld
        have hone : ¬n ≤ 1 := by omega
        have hrest : n - 1 ≤ count := by omega
        have hall : n ≤ count + 1 := by omega
        simp only [dropHolder, if_true, hone, if_false, hrest, hall]
      · have hne : (client == first) = false := by simpa using heq
        rw [List.lookup_cons, hne] at hheld
        simp only [dropHolder, heq, if_false, ih hheld]

end FileCycle

namespace Catalog

variable {call : Call} {cycle : FileCycle} {before : Option FileCycle} {share : Share}

/-- A client that gives up one of several assignments and then the others gives up all. -/
theorem released_released (h : cycle.Tallied) (hheld : 1 < cycle.held call.client) :
    released (released cycle call .one) call .all = released cycle call .all := by
  have hleft : (released cycle call .one).held call.client = cycle.held call.client - 1 := by
    rw [held_released h, if_pos rfl]
    rfl
  obtain ⟨count, hcount⟩ : ∃ count, cycle.held call.client = count + 1 + 1 :=
    ⟨cycle.held call.client - 2, by omega⟩
  rw [hcount, Nat.add_sub_cancel] at hleft
  have hholders := FileCycle.dropHolder_dropHolder call.client (Nat.succ_pos count) hcount
  have hassigned : cycle.item.assigned - min 1 (count + 1 + 1) - min (count + 1) (count + 1) =
      cycle.item.assigned - min (count + 1 + 1) (count + 1 + 1) := by omega
  calc released (released cycle call .one) call .all
      = { cycle with
          holders := FileCycle.dropHolder call.client ((released cycle call .one).held call.client)
            (FileCycle.dropHolder call.client 1 cycle.holders)
          item := { cycle.item with
            assigned := cycle.item.assigned - min 1 (cycle.held call.client) -
              min ((released cycle call .one).held call.client)
                ((released cycle call .one).held call.client)
            lastReference := call.now } } := rfl
    _ = { cycle with
          holders := FileCycle.dropHolder call.client (cycle.held call.client) cycle.holders
          item := { cycle.item with
            assigned := cycle.item.assigned -
              min (cycle.held call.client) (cycle.held call.client)
            lastReference := call.now } } := by
        rw [hleft, hcount, hholders, hassigned]
    _ = released cycle call .all := rfl

/-- Of several assignments a client may give up one, and the cycle stays as it is. -/
theorem settled_one (h : cycle.Tallied) (hheld : 1 < cycle.held call.client) :
    settled call .one cycle = some (released cycle call .one) := by
  have hleft : (released cycle call .one).held call.client = cycle.held call.client - 1 := by
    rw [held_released h, if_pos rfl]
    rfl
  have hsome : (released cycle call .one).held call.client ≠ 0 := by omega
  have hassigned : (released cycle call .one).item.assigned ≠ 0 :=
    Nat.ne_of_gt (Nat.lt_of_lt_of_le (Nat.pos_of_ne_zero hsome)
      ((tallied_released h .one).held_le_assigned call.client))
  exact settled_of_stays (fun hgone => hassigned hgone.2) fun hlast => hsome hlast.2

/-! ### What is left of a cycle -/

/-- What is left of a cycle of which a client was let release a share, if it has any of it. -/
def yielded (call : Call) (share : Share) (before : Option FileCycle) : Option FileCycle :=
  before.bind fun cycle =>
    if cycle.held call.client = 0 then some cycle else settled call share cycle

theorem yielded_some : yielded call share (some cycle) =
    if cycle.held call.client = 0 then some cycle else settled call share cycle := rfl

/-- Who has nothing of it leaves it as it is. -/
theorem yielded_of_not_held (h : heldOf before call.client = 0) :
    yielded call share before = before := by
  cases before with
  | none => rfl
  | some cycle => exact if_pos h

theorem bookkept_yielded (h : ∀ b ∈ before, b.Bookkept) :
    ∀ b ∈ yielded call share before, b.Bookkept := by
  cases before with
  | none => exact h
  | some cycle =>
      rw [yielded_some]
      split
      · exact h
      · rename_i hheld
        exact bookkept_settled (h cycle rfl) hheld

/-- Nobody else has more or less of it. -/
theorem heldOf_yielded_of_ne (h : ∀ b ∈ before, b.Tallied) {other : Client}
    (hne : other ≠ call.client) :
    heldOf (yielded call share before) other = heldOf before other := by
  cases before with
  | none => rfl
  | some cycle =>
      rw [yielded_some, heldOf_some]
      split
      · rfl
      · exact heldOf_settled_of_ne (h cycle rfl) share hne

/-- Who gives up all has nothing left. -/
theorem heldOf_yielded_all (h : ∀ b ∈ before, b.Tallied) :
    heldOf (yielded call .all before) call.client = 0 := by
  cases before with
  | none => rfl
  | some cycle =>
      rw [yielded_some]
      split
      · rename_i hheld
        exact hheld
      · exact heldOf_settled_all (h cycle rfl)

/-- Who gives up one assignment has one less, if any. -/
theorem heldOf_yielded_one_le (h : ∀ b ∈ before, b.Tallied) :
    heldOf (yielded call .one before) call.client ≤ heldOf before call.client - 1 := by
  cases before with
  | none => exact Nat.zero_le _
  | some cycle =>
      rw [yielded_some, heldOf_some]
      split
      · rename_i hheld
        rw [heldOf_some]
        omega
      · have hcases : heldOf (settled call .one cycle) call.client = 0 ∨ _ :=
          heldOf_settled (h cycle rfl) .one call.client
        rcases hcases with hzero | hless
        · rw [hzero]
          exact Nat.zero_le _
        · rw [hless, if_pos rfl]
          exact Nat.le_refl _

/-- Giving up one assignment and then all that are left is giving up all. -/
theorem yielded_all_one (h : ∀ b ∈ before, b.Tallied) :
    yielded call .all (yielded call .one before) = yielded call .all before := by
  cases before with
  | none => rfl
  | some cycle =>
      rcases Nat.lt_or_ge 1 (cycle.held call.client) with hmany | hfew
      · have hsome : cycle.held call.client ≠ 0 := by omega
        have hleft : (released cycle call .one).held call.client ≠ 0 := by
          rw [held_released (h cycle rfl), if_pos rfl]
          exact Nat.sub_ne_zero_of_lt hmany
        rw [yielded_some, if_neg hsome, settled_one (h cycle rfl) hmany, yielded_some, if_neg hleft,
          yielded_some, if_neg hsome, settled, settled, released_released (h cycle rfl) hmany]
      · -- one assignment is all that there are
        have hsame : yielded call .one (some cycle) = yielded call .all (some cycle) := by
          rw [yielded_some, yielded_some]
          split
          · rfl
          · rename_i hheld
            have hone : cycle.held call.client = 1 := by omega
            have hreleased : released cycle call .one = released cycle call .all := by
              rw [released, released, Share.of, Share.of, hone]
            rw [settled, settled, hreleased]
        rw [hsame, yielded_of_not_held (heldOf_yielded_all h)]

/-- **One assignment after another** comes to the same as all of them at once. -/
theorem iterate_yielded_one (h : ∀ b ∈ before, b.Bookkept) {count : Nat}
    (hcount : heldOf before call.client ≤ count) :
    (yielded call .one)^[count] before = yielded call .all before := by
  induction count generalizing before with
  | zero => rw [Function.iterate_zero, id, yielded_of_not_held (Nat.le_zero.1 hcount)]
  | succ count ih =>
      have htallied : ∀ b ∈ before, b.Tallied := fun b hb => (h b hb).toTallied
      have hless : heldOf (yielded call .one before) call.client ≤ _ := heldOf_yielded_one_le htallied
      rw [Function.iterate_succ_apply, ih (bookkept_yielded h) (by omega), yielded_all_one htallied]

/-- Giving up all again leaves it as it is. -/
theorem iterate_yielded_all (h : ∀ b ∈ before, b.Tallied) {count : Nat}
    (hcount : heldOf before call.client ≠ 0 → count ≠ 0) :
    (yielded call .all)^[count] before = yielded call .all before := by
  cases count with
  | zero =>
      have hnone : heldOf before call.client = 0 := by
        by_contra hheld
        exact hcount hheld rfl
      rw [Function.iterate_zero, id, yielded_of_not_held hnone]
  | succ count =>
      rw [Function.iterate_succ_apply]
      refine Function.iterate_fixed ?_ count
      exact yielded_of_not_held (heldOf_yielded_all h)

/-- What is left of a cycle is on the tracks that it was on. -/
theorem table_of_yielded {a : FileCycle} (h : a ∈ yielded call share before) :
    ∃ b ∈ before, a.item.table = b.item.table := by
  cases before with
  | none => cases h
  | some cycle =>
      refine ⟨cycle, rfl, ?_⟩
      rw [yielded_some] at h
      split at h
      · rw [Option.some.inj h]
      · exact (of_mem_settled h).2.1

/-- A cycle that is being cataloged becomes live when its creator gives it up. -/
theorem live_of_yielded_all (h : cycle.Tallied) (hheld : cycle.held call.client ≠ 0)
    (hstate : cycle.item.state = .cataloging) :
    ∃ a ∈ yielded call .all (some cycle), a.item.state = .live := by
  have hnone : (released cycle call .all).held call.client = 0 := by
    rw [held_released h, if_pos rfl]
    exact Nat.sub_self _
  have hsame : (released cycle call .all).item.state = .cataloging := hstate
  refine ⟨cataloged (released cycle call .all) call.now, ?_, rfl⟩
  rw [yielded_some, if_neg hheld, settled, hsame]
  exact if_pos hnone

/-- A cycle that is being dropped goes when the only one who has it gives it up. -/
theorem yielded_all_eq_none (h : cycle.Tallied) (hheld : cycle.held call.client ≠ 0)
    (hothers : ∀ other, other ≠ call.client → cycle.held other = 0)
    (hstate : cycle.item.state = .dropping) : yielded call .all (some cycle) = none := by
  have hnobody : ∀ client, (released cycle call .all).held client = 0 := by
    intro client
    rw [held_released h]
    split
    · exact Nat.sub_self _
    · rename_i hne
      exact hothers client hne
  have hunassigned := (tallied_released h .all).assigned_eq_zero hnobody
  rw [yielded_some, if_neg hheld]
  rcases settled_cases call .all cycle with ⟨-, -, hnone⟩ | ⟨hstays, -⟩
  · exact hnone
  · exact absurd ⟨hstate, hunassigned⟩ hstays

/-! ### Regular catalogs -/

/-- What every state of a catalog is like: its cycles are told apart, its lead items are in step, the
pack is divided and the assignments are accounted for. -/
structure Regular (c : Catalog) : Prop where
  indexed : c.Indexed
  inStep : ∀ set ∈ c.sets, set.InStep
  divided : c.Divided
  capacity : c.space.capacity = min c.config.packTracks Word.maxValue
  bookkept : ∀ set ∈ c.sets, ∀ cycle ∈ set.cycles, cycle.Bookkept

variable {c : Catalog} {file : FileId}

theorem Regular.of_cycle? (h : c.Regular) : ∀ b ∈ c.cycle? file, b.Bookkept := by
  intro b hb
  obtain ⟨set, hset, hin, -⟩ := (cycle?_eq_some_iff h.indexed).1 hb
  exact h.bookkept set hset b hin

/-! ### Releases in turn -/

/-- What is left of a catalog when a client was let release a share of a cycle. -/
def relinquish (c : Catalog) (call : Call) (share : Share) (file : FileId) : Catalog :=
  match c.release call file share with
  | .ok change => change.catalog
  | .error _ => c

/-- What is left when it was let release cycles in turn. -/
def relinquishAll (c : Catalog) (call : Call) (share : Share) (files : List FileId) : Catalog :=
  files.foldl (fun c file => c.relinquish call share file) c

@[simp] theorem relinquishAll_nil : c.relinquishAll call share [] = c := rfl

@[simp] theorem relinquishAll_cons {files : List FileId} :
    c.relinquishAll call share (file :: files) =
      (c.relinquish call share file).relinquishAll call share files := rfl

/-- Unless the deadline has passed, a release succeeds exactly if the client has some of the cycle. -/
theorem release_of_time (htime : call.expired 1 = false) :
    c.release call file share = match c.locate? file with
      | none => .error (.noSuchFile file)
      | some (set, cycle) =>
        if cycle.held call.client = 0 then .error (.notAssigned file call.client)
        else .ok {
          catalog := c.settle call set (released cycle call share)
          touched := set.name
          answer := ()
          notes := releaseNotes call (released cycle call share)
          moved := releaseMove (released cycle call share) } := by
  have hearlier := Call.expired_eq_false_of_le (Nat.zero_le 1) htime
  unfold release locate
  rw [Call.check_of_expired hearlier, Call.check_of_expired htime]
  cases c.locate? file with
  | none => rfl
  | some found =>
      obtain ⟨set, cycle⟩ := found
      by_cases hheld : cycle.held call.client = 0
      · simp [hheld, bind, Except.bind, throw, throwThe, MonadExceptOf.throw]
      · simp [hheld, bind, Except.bind, pure, Except.pure]

/-- So a client is let release what it has. -/
theorem exists_release (htime : call.expired 1 = false)
    (hheld : heldOf (c.cycle? file) call.client ≠ 0) (share : Share) :
    ∃ change, c.release call file share = .ok change := by
  rw [release_of_time htime]
  cases hlocate : c.locate? file with
  | none =>
      rw [cycle?, hlocate] at hheld
      exact absurd rfl hheld
  | some found =>
      obtain ⟨set, cycle⟩ := found
      rw [cycle?, hlocate] at hheld
      exact ⟨_, if_neg hheld⟩

/-- The rest of a call releases the same, unless its deadline has passed. -/
theorem relinquish_after {looks : Nat} (htime : call.expired (looks + 1) = false) :
    c.relinquish (call.after looks) share file = c.relinquish call share file := by
  have hnow := Call.expired_eq_false_of_le (Nat.le_add_left 1 looks) htime
  have hrest : (call.after looks).expired 1 = false := by rw [call.expired_after, htime]
  unfold relinquish
  rw [release_of_time hnow, release_of_time hrest]
  cases c.locate? file with
  | none => rfl
  | some found =>
      obtain ⟨set, cycle⟩ := found
      by_cases hheld : cycle.held call.client = 0
      · simp [hheld, Call.after]
      · simp only [Call.after, hheld, if_false]
        rfl

/-- What a release leaves of each cycle. -/
theorem cycle?_of_release (hc : c.Indexed) {change : Change Unit}
    (h : c.release call file share = .ok change) (other : FileId) :
    change.catalog.cycle? other =
      if other = file then yielded call share (c.cycle? file) else c.cycle? other := by
  have hafter := (steps_release h).indexed hc
  obtain ⟨set, hset, cycle, hcycle, rfl, hheld, rfl⟩ := release_eq_ok h
  rw [cycle?_settle hc hset hcycle hafter, cycle?_of_mem hc hset hcycle, yielded_some,
    if_neg hheld]

/-- A regular catalog stays regular when a cycle is released. -/
theorem Regular.release (h : c.Regular) {change : Change Unit}
    (hrelease : c.release call file share = .ok change) : change.catalog.Regular := by
  have hafter := (steps_release hrelease).indexed h.indexed
  have hcycle? := cycle?_of_release h.indexed hrelease
  obtain ⟨set, space, last, hstep, -, heq⟩ := steps_release hrelease
  constructor
  case indexed => exact hafter
  case inStep =>
    rw [heq]
    exact forall_sets_put h.indexed.ordered h.inStep (hstep.inStep h.indexed h.inStep)
  case divided =>
    rw [heq]
    exact hstep.divided h.divided h.indexed
  case capacity =>
    rw [heq, space_put, config_put, hstep.capacity_eq h.divided h.indexed]
    exact h.capacity
  case bookkept =>
    intro s hs cycle hcycle
    have hfound := cycle?_of_mem hafter hs hcycle
    rw [hcycle?] at hfound
    split at hfound
    · exact bookkept_yielded h.of_cycle? cycle hfound
    · exact h.of_cycle? cycle hfound

/-- **What is left of a regular catalog** when a client was let release a cycle. -/
theorem Regular.relinquish (h : c.Regular) (htime : call.expired 1 = false) (share : Share)
    (file : FileId) :
    (c.relinquish call share file).Regular ∧ Narrowed c (c.relinquish call share file) ∧
      ∀ other, (c.relinquish call share file).cycle? other =
        if other = file then yielded call share (c.cycle? file) else c.cycle? other := by
  unfold Catalog.relinquish
  cases hrelease : c.release call file share with
  | ok change =>
      exact ⟨h.release hrelease, narrowed_release h.indexed h.inStep hrelease,
        cycle?_of_release h.indexed hrelease⟩
  | error f =>
      have hheld : heldOf (c.cycle? file) call.client = 0 := by
        by_contra hheld
        obtain ⟨change, hchange⟩ := exists_release htime hheld share
        rw [hrelease] at hchange
        cases hchange
      refine ⟨h, .refl h.indexed h.inStep, fun other => ?_⟩
      dsimp only
      rw [yielded_of_not_held hheld]
      split
      · rename_i heq
        rw [heq]
      · rfl

/-- **What is left when a client was let release cycles in turn**: each cycle is left as often yielded
as it occurs among them. -/
theorem Regular.relinquishAll (h : c.Regular) (share : Share) {files : List FileId}
    (htime : files ≠ [] → call.expired 1 = false) :
    (c.relinquishAll call share files).Regular ∧ Narrowed c (c.relinquishAll call share files) ∧
      ∀ other, (c.relinquishAll call share files).cycle? other =
        (yielded call share)^[files.count other] (c.cycle? other) := by
  induction files generalizing c with
  | nil => exact ⟨h, .refl h.indexed h.inStep, fun _ => rfl⟩
  | cons file files ih =>
      have hnow := htime (List.cons_ne_nil file files)
      obtain ⟨hnext, hnarrowed, hcycle?⟩ := h.relinquish hnow share file
      obtain ⟨hrest, hnarrowed', hcycle?'⟩ := ih hnext fun _ => hnow
      refine ⟨hrest, hnarrowed.trans hnarrowed' hnext.indexed, fun other => ?_⟩
      rw [relinquishAll_cons, hcycle?', hcycle?]
      by_cases heq : other = file
      · rw [if_pos heq, heq, List.count_cons_self, Function.iterate_succ_apply]
      · rw [if_neg heq, List.count_cons_of_ne (Ne.symm heq)]

/-- **In which order and in how many shares does not matter**: a client that is let release all that it
has of some cycles, at least those that it has, leaves the catalog that it leaves when it is let release
one assignment after another in any order, each cycle at least as often as it has it. -/
theorem Regular.relinquishAll_eq (h : c.Regular) (htime : call.expired 1 = false)
    {held files : List FileId}
    (hheld : ∀ file, heldOf (c.cycle? file) call.client ≠ 0 → file ∈ held)
    (hfiles : ∀ file, heldOf (c.cycle? file) call.client ≤ files.count file) :
    c.relinquishAll call .all held = c.relinquishAll call .one files := by
  have htimely : ∀ files : List FileId, files ≠ [] → call.expired 1 = false := fun _ _ => htime
  obtain ⟨hall, hallNarrowed, hallCycle?⟩ := h.relinquishAll .all (htimely held)
  obtain ⟨hone, honeNarrowed, honeCycle?⟩ := h.relinquishAll .one (htimely files)
  refine hallNarrowed.eq honeNarrowed hall.indexed hone.indexed hall.divided hone.divided ?_ ?_
  · rw [hall.capacity, hone.capacity, hallNarrowed.config_eq, honeNarrowed.config_eq]
  · intro file
    have hbooks : ∀ b ∈ c.cycle? file, b.Bookkept := h.of_cycle?
    rw [hallCycle?, honeCycle?, iterate_yielded_one hbooks (hfiles file)]
    refine iterate_yielded_all (fun b hb => (hbooks b hb).toTallied) fun hpos => ?_
    exact Nat.ne_of_gt (List.count_pos_iff.2 (hheld file hpos))

end Catalog

end FileDirectory
