/-
**Recording a directory does not bear on it.**

A directory that is kept in memory only and one that is recorded, of the same configuration and given
the same calls, have the same file sets, the same assignments and the same free tracks after every
history, however small the medium is and whatever attempts at writing fail.  They give the same
answers, but that the recorded one may report an error of its medium in place of a success, and that
it shows a directory error of the cycles whose records may be out of date.

Main definitions:

* `FileDirectory.MainItem.unmarked` — an item without its mark of a directory error;
* `FileDirectory.Directory.Alike` — a directory in memory and a recorded one that have all in common
  but what is on the medium;
* `FileDirectory.Directory.Agrees` — the answers of the two to a request.

Main results:

* `FileDirectory.Directory.Alike.perform` — every operation leaves the two alike;
* `FileDirectory.Directory.Alike.handle` — so does every request, to which their answers agree;
* `FileDirectory.Directory.alike_after` — the two are alike, and answer alike, after every history.
-/

import FileDirectory.Proofs.Catalog.Life
import FileDirectory.Proofs.Directory.Recorded

set_option autoImplicit false

namespace FileDirectory

/-- An item without its mark of a directory error. -/
def MainItem.unmarked (m : MainItem) : MainItem :=
  { m with disable := { m.disable with directoryError := false } }

namespace Directory

open Catalog

/-- What a directory shows of a cycle is its item, but for the mark of a directory error. -/
@[simp] theorem unmarked_shown (d : Directory) (c : FileCycle) :
    (d.shown c).unmarked = c.item.unmarked := by
  unfold shown
  cases d.store <;> rfl

/-! ### Directories that are alike -/

/-- A directory in memory and one that is recorded have all in common but what is on the medium. -/
structure Alike (plain recorded : Directory) : Prop where
  memory : plain.store = none
  catalog : recorded.catalog = plain.catalog
  roster : recorded.roster = plain.roster
  index : recorded.index = plain.index
  shown : ∀ c, (recorded.shown c).unmarked = (plain.shown c).unmarked

/-- The outcome of an operation on a recorded directory is that of the same operation in memory, or an
error of the medium in place of a success. -/
inductive Follows {α : Type} : Except Failure α → Except Failure α → Prop
  | same (answer : Except Failure α) : Follows answer answer
  | medium {a : α} {f : Failure} (hkind : f.kind = .mediumIo) : Follows (.ok a) (.error f)

/-- The answer of a recorded directory to a request agrees with that of the one in memory. -/
inductive Agrees (r : Request) : Except Failure Reply → Except Failure Reply → Prop
  | same (answer : Except Failure Reply) : Agrees r answer answer
  /-- A cycle may be shown with a directory error. -/
  | cycle {info info' : CycleInfo} (hfile : info'.file = info.file)
      (hitem : info'.item.unmarked = info.item.unmarked) :
      Agrees r (.ok (.cycle info)) (.ok (.cycle info'))
  /-- The medium may fail a request that changes something. -/
  | medium {reply : Reply} {f : Failure} (hr : r.isQuery = false) (hkind : f.kind = .mediumIo) :
      Agrees r (.ok reply) (.error f)

/-- A request that fails in memory fails alike where the directory is recorded. -/
theorem Agrees.eq_error {r : Request} {f : Failure} {answer : Except Failure Reply}
    (h : Agrees r (.error f) answer) : answer = .error f := by
  cases h
  rfl

theorem Follows.agrees {α : Type} {plain recorded : Except Failure α} (h : Follows plain recorded)
    {r : Request} (hr : r.isQuery = false) (reply : α → Reply) :
    Agrees r (plain.map reply) (recorded.map reply) := by
  cases h with
  | same answer => exact .same _
  | medium hkind => exact .medium hr hkind

variable {plain recorded : Directory} {call : Call} {r : Request}

/-- **Every operation leaves the two alike**: what goes wrong on the medium undoes nothing. -/
theorem Alike.perform {α : Type} (h : Alike plain recorded) (outcome : Except Failure (Change α)) :
    Alike (plain.perform outcome).2 (recorded.perform outcome).2 ∧
      Follows (plain.perform outcome).1 (recorded.perform outcome).1 := by
  cases outcome with
  | error f => exact ⟨h, .same _⟩
  | ok change =>
      constructor
      · exact {
          memory := by unfold Directory.perform; rw [h.memory]
          catalog := by rw [catalog_perform_ok, catalog_perform_ok]
          roster := by rw [roster_perform_ok, roster_perform_ok, h.roster]
          index := by rw [index_perform_ok, index_perform_ok, h.index]
          shown := by simp }
      · rw [answer_perform_memory h.memory]
        rcases answer_perform_cases recorded change with ⟨hanswer, -⟩ | ⟨f, hkind, hanswer⟩
        · rw [hanswer]
          exact .same _
        · rw [hanswer]
          exact .medium hkind

theorem Alike.release (h : Alike plain recorded) (call : Call) (file : FileId) (share : Share) :
    Alike (plain.release call file share).2 (recorded.release call file share).2 ∧
      Follows (plain.release call file share).1 (recorded.release call file share).1 := by
  unfold Directory.release
  rw [h.catalog]
  exact h.perform _

/-! ### Looking up -/

theorem Alike.find? (h : Alike plain recorded) (name : SetName) :
    recorded.find? name = plain.find? name := by
  unfold Directory.find?
  rw [h.index, h.catalog]

theorem Alike.locate? (h : Alike plain recorded) (file : FileId) :
    recorded.locate? file = plain.locate? file := by
  unfold Directory.locate?
  rw [h.index, h.catalog]

theorem Alike.listed (h : Alike plain recorded) : recorded.listed = plain.listed := by
  unfold Directory.listed
  rw [h.index, h.catalog]

/-! ### Releasing everything -/

theorem Alike.heldBy (h : Alike plain recorded) (client : Client) :
    recorded.heldBy client = plain.heldBy client := by
  have hlocate : recorded.locate? = plain.locate? := funext h.locate?
  unfold Directory.heldBy
  rw [h.roster, hlocate]

/-- A directory in memory fails to release a cycle if the deadline has passed, or the caller does not
have it. -/
theorem Alike.kind_of_release (h : Alike plain recorded) {file : FileId} {share : Share} {f : Failure}
    (hanswer : (plain.release call file share).1 = .error f) :
    f.kind = .aborted ∨ f.kind = .notFound ∨ f.kind = .notAssigned := by
  unfold Directory.release Directory.perform at hanswer
  cases houtcome : plain.catalog.release call file share with
  | error g =>
      rw [houtcome] at hanswer
      cases hanswer
      exact (release_eq_error houtcome).imp_right And.left
  | ok change =>
      rw [houtcome, h.memory] at hanswer
      cases hanswer

/-- Releasing cycles in turn leaves the two alike: an error of the medium is told at the end, and keeps
no cycle from being released. -/
theorem Alike.releaseEach (h : Alike plain recorded) (looks : Nat) {released released' : Nat}
    {trouble : Option Failure}
    (htrouble : trouble = none ∧ released' = released ∨ ∃ f, trouble = some f ∧ f.kind = .mediumIo)
    (files : List FileId) :
    Alike (releaseEach call plain looks released none files).2
        (releaseEach call recorded looks released' trouble files).2 ∧
      Follows (releaseEach call plain looks released none files).1
        (releaseEach call recorded looks released' trouble files).1 := by
  induction files generalizing plain recorded looks released released' trouble with
  | nil =>
      unfold Directory.releaseEach
      rcases htrouble with ⟨rfl, rfl⟩ | ⟨f, rfl, hkind⟩
      · exact ⟨h, .same _⟩
      · exact ⟨h, .medium hkind⟩
  | cons file files ih =>
      obtain ⟨hnext, hanswer⟩ := h.release (call.after looks) file .all
      have hkind : ∀ f, (plain.release (call.after looks) file .all).1 = .error f →
          f.kind = .aborted ∨ f.kind = .notFound ∨ f.kind = .notAssigned := fun f => h.kind_of_release
      rw [Directory.releaseEach, Directory.releaseEach]
      generalize plain.release (call.after looks) file .all = first at hnext hanswer hkind
      generalize recorded.release (call.after looks) file .all = second at hnext hanswer
      obtain ⟨answer, plain'⟩ := first
      obtain ⟨answer', recorded'⟩ := second
      dsimp only at hnext hanswer hkind
      cases hanswer with
      | same =>
          cases answer with
          | ok u =>
              refine ih hnext (looks + 2) ?_
              exact htrouble.imp_left fun hnone => ⟨hnone.1, congrArg Nat.succ hnone.2⟩
          | error f =>
              dsimp only
              -- the loop ends when the deadline has passed, and goes on where the cycle is gone
              rcases hkind f rfl with haborted | hfound | hassigned
              · rw [haborted]
                exact ⟨hnext, .same _⟩
              · rw [hfound]
                exact ih hnext (looks + 2) htrouble
              · rw [hassigned]
                exact ih hnext (looks + 2) htrouble
      | @medium u f hmedium =>
          dsimp only
          rw [hmedium]
          refine ih hnext (looks + 2) (Or.inr ?_)
          -- the first trouble with the medium is the one that is told
          rcases htrouble with ⟨rfl, -⟩ | ⟨g, rfl, hg⟩
          · exact ⟨f, rfl, hmedium⟩
          · exact ⟨g, rfl, hg⟩

theorem Alike.releaseAll (h : Alike plain recorded) (call : Call) :
    Alike (plain.releaseAll call).2 (recorded.releaseAll call).2 ∧
      Follows (plain.releaseAll call).1 (recorded.releaseAll call).1 := by
  unfold Directory.releaseAll
  cases call.check .releaseAll 0 with
  | error f => exact ⟨h, .same _⟩
  | ok u =>
      rw [h.heldBy]
      exact h.releaseEach 1 (Or.inl ⟨rfl, rfl⟩) _

/-! ### Requests and histories -/

/-- The two show the same of a cycle, but for the mark of a directory error. -/
theorem Alike.agrees_cycleInfo (h : Alike plain recorded) (call : Call) (file : FileId) :
    Agrees (.cycleInfo file) ((plain.cycleInfo call file).map .cycle)
      ((recorded.cycleInfo call file).map .cycle) := by
  unfold Directory.cycleInfo
  rw [h.locate?]
  cases call.check .cycleInfo 0 with
  | error f => exact .same _
  | ok u =>
      cases plain.locate? file with
      | none => exact .same _
      | some found => exact .cycle rfl (h.shown found.2)

/-- **Every request leaves the two alike, and their answers agree.** -/
theorem Alike.handle (h : Alike plain recorded) (call : Call) (r : Request) :
    Alike (plain.handle call r).2 (recorded.handle call r).2 ∧
      Agrees r (plain.handle call r).1 (recorded.handle call r).1 := by
  cases hquery : r.isQuery with
  | false =>
      by_cases hr : r = .releaseAll
      · subst hr
        exact ⟨(h.releaseAll call).1, (h.releaseAll call).2.agrees hquery .released⟩
      · obtain ⟨α, outcome, reply, -, hoperation⟩ :=
          exists_operation plain.catalog call hr hquery
        rw [(hoperation plain rfl).1, (hoperation recorded h.catalog).1]
        exact ⟨(h.perform outcome).1, (h.perform outcome).2.agrees hquery reply⟩
  | true =>
      cases r with
      | setInfo qualifier filename =>
          have hanswer : recorded.setInfo call qualifier filename =
              plain.setInfo call qualifier filename := by
            have hfind : recorded.find? = plain.find? := funext h.find?
            unfold Directory.setInfo
            rw [hfind]
          refine ⟨h, ?_⟩
          change Agrees _ _ ((recorded.setInfo call qualifier filename).map Reply.set)
          rw [hanswer]
          exact .same _
      | cycleInfo file => exact ⟨h, h.agrees_cycleInfo call file⟩
      | listSets =>
          have hanswer : recorded.listSets call = plain.listSets call := by
            unfold Directory.listSets
            rw [h.listed]
          refine ⟨h, ?_⟩
          change Agrees _ _ ((recorded.listSets call).map Reply.sets)
          rw [hanswer]
          exact .same _
      | _ => cases hquery

theorem Alike.after (h : Alike plain recorded) (history : List (Call × Request)) :
    Alike (plain.after history) (recorded.after history) := by
  induction history generalizing plain recorded with
  | nil => exact h
  | cons request history ih => exact ih (h.handle request.1 request.2).1

theorem alike_format {config : Configuration} {device : Device} {d : Directory}
    (h : format config device = .ok d) : Alike (empty config) d := by
  obtain ⟨device', rfl, -⟩ := format_eq_ok h
  exact ⟨rfl, rfl, rfl, rfl, by simp⟩

/-- **Recording does not bear on a directory**: one that was set up on a medium of any size, in any
pattern of failing attempts at writing, is like the one of the same configuration that is kept in
memory after every history, and to every request that follows their answers agree. -/
theorem alike_after {config : Configuration} {device : Device} {d : Directory}
    (hformat : format config device = .ok d) (history : List (Call × Request)) :
    Alike ((empty config).after history) (d.after history) ∧
      ∀ call r, Agrees r (((empty config).after history).handle call r).1
        ((d.after history).handle call r).1 := by
  have halike := (alike_format hformat).after history
  exact ⟨halike, fun call r => (halike.handle call r).2⟩

theorem alike_after_twoTapes :
    ∃ d, format {} { medium := .ofSectorCount 3 } = .ok d ∧
      Alike ((empty {}).after twoTapes) (d.after twoTapes) ∧
      ∀ call r, Agrees r (((empty {}).after twoTapes).handle call r).1
        ((d.after twoTapes).handle call r).1 := by
  obtain ⟨d, hformat⟩ := format_of_healthy {} (Device.healthy_blank 3)
  exact ⟨d, hformat, alike_after hformat twoTapes⟩

end Directory

end FileDirectory
