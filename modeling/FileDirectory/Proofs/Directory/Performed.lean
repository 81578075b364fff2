/-
**A request is an operation, or one release after another.**

Every request but one is refused or performs one operation, which is a turn for every cycle.
Releasing everything performs releases in turn.  What every operation preserves that is performed for
a request, the roster included, is therefore preserved by the request and holds in every state.

Main definitions:

* `FileDirectory.Directory.Performed` — a request was refused or one operation performed for it.

Main results:

* `FileDirectory.Directory.performed_handle` — so it is for every request but releasing everything;
* `FileDirectory.Directory.handle_induction`, `FileDirectory.Directory.Reached.performed_induction` —
  what every operation preserves is preserved by every request, and holds in every state.
-/

import FileDirectory.Proofs.Directory.Reached

set_option autoImplicit false

namespace FileDirectory.Directory

open Catalog

/-! ### One operation -/

/-- A request was refused, or one operation was performed for it. -/
inductive Performed (call : Call) (r : Request) (d : Directory) : Directory → Prop
  | refused : Performed call r d d
  | performed {α : Type} (change : Change α) (hasked : Asked call d.catalog r change) :
      Performed call r d (d.perform (.ok change)).2

variable {call : Call} {r : Request} {d d' : Directory}

/-- An outcome of the catalog is performed if it is what the request asks for. -/
theorem performed_perform {α : Type} {outcome : Except Failure (Change α)}
    (h : ∀ change, outcome = .ok change → Asked call d.catalog r change) :
    Performed call r d (d.perform outcome).2 := by
  cases outcome with
  | error f => exact .refused
  | ok change => exact .performed change (h change rfl)

theorem Performed.indexed (h : Performed call r d d') (hd : d.catalog.Indexed) :
    d'.catalog.Indexed := by
  cases h with
  | refused => exact hd
  | performed change hasked =>
      rw [catalog_perform_ok]
      exact (hasked.steps hd).indexed hd

/-- What becomes of a cycle when an operation is performed is one of its turns. -/
theorem Performed.turn (h : Performed call r d d') (hd : d.catalog.Indexed) (file : FileId) :
    ∃ notes, Turn call r file (d.catalog.cycle? file) (d'.catalog.cycle? file) notes := by
  cases h with
  | refused => exact ⟨[], .idle _⟩
  | performed change hasked =>
      rw [catalog_perform_ok]
      exact ⟨_, hasked.turns hd file⟩

/-- The request to release a share of a cycle. -/
@[simp] theorem share_release (file : FileId) : (Request.release file).share file = some .one :=
  if_pos rfl

theorem performed_release {file : FileId} {share : Share} (hr : r.share file = some share)
    (looks : Nat) : Performed call r d (d.release (call.after looks) file share).2 :=
  performed_perform fun _ => .release hr

/-- **Every request but releasing everything** is refused or performs one operation. -/
theorem performed_handle (hr : r ≠ .releaseAll) : Performed call r d (d.handle call r).2 := by
  cases r with
  | createTape => exact performed_perform fun _ => .createTape
  | createDisk => exact performed_perform fun _ => .createDisk
  | assign => exact performed_perform fun _ => .assign
  | catalog => exact performed_perform fun _ => .catalog
  | abort => exact performed_perform fun _ => .abort
  | delete => exact performed_perform fun _ => .delete
  | release file =>
      have hreleased : Performed call (.release file) d (d.release (call.after 0) file .one).2 :=
        performed_release (share_release file) 0
      rwa [Call.after_zero] at hreleased
  | releaseAll => exact absurd rfl hr
  | allocateTracks file first count =>
      change Performed _ _ _ (d.allocateTracks call file first count).2
      rw [allocateTracks_eq]
      exact performed_perform fun _ hchange => .allocateTracks (mapError_eq_ok.1 hchange)
  | markWritten => exact performed_perform fun _ => .markWritten
  | setGuard => exact performed_perform fun _ => .setGuard
  | setInfo => exact .refused
  | cycleInfo => exact .refused
  | listSets => exact .refused

/-! ### Releasing everything -/

/-- What every release preserves, releasing cycles in turn preserves. -/
theorem releaseEach_induction {P : Directory → Prop}
    (hstep : ∀ e looks file, P e → P (e.release (call.after looks) file .all).2)
    (hd : P d) (looks released : Nat) (trouble : Option Failure) (files : List FileId) :
    P (releaseEach call d looks released trouble files).2 :=
  traceEach_induction (fun _ _ => ([] : List Unit)) (P := fun e _ => P e)
    (fun e _ looks file => hstep e looks file) [] hd looks released trouble files

theorem releaseAll_induction {P : Directory → Prop}
    (hstep : ∀ e looks file, P e → P (e.release (call.after looks) file .all).2)
    (hd : P d) : P (d.releaseAll call).2 := by
  unfold releaseAll
  cases call.check .releaseAll 0 with
  | error f => exact hd
  | ok u => exact releaseEach_induction hstep hd 1 0 none _

/-! ### Requests and states -/

/-- **What every operation preserves that is performed for a request, the request preserves.** -/
theorem handle_induction {P : Directory → Prop}
    (hstep : ∀ e e', e.catalog.Indexed → P e → Performed call r e e' → P e')
    (hindexed : d.catalog.Indexed) (hd : P d) :
    (d.handle call r).2.catalog.Indexed ∧ P (d.handle call r).2 := by
  by_cases hr : r = .releaseAll
  · subst hr
    refine releaseAll_induction (P := fun e => e.catalog.Indexed ∧ P e) ?_ ⟨hindexed, hd⟩
    rintro e looks file ⟨he, hpe⟩
    have hperformed : Performed call .releaseAll e (e.release (call.after looks) file .all).2 :=
      performed_release rfl looks
    exact ⟨hperformed.indexed he, hstep _ _ he hpe hperformed⟩
  · have hperformed : Performed call r d (d.handle call r).2 := performed_handle hr
    exact ⟨hperformed.indexed hindexed, hstep _ _ hindexed hd hperformed⟩

/-- **What every operation preserves holds in every state**, the roster included. -/
theorem Reached.performed_induction {start : Directory → Prop} {P : Directory → Prop}
    (hstart : ∀ d, start d → d.catalog.Indexed ∧ P d)
    (hstep : ∀ call r d d', d.catalog.Indexed → P d → Performed call r d d' → P d')
    (h : Reached start d) : d.catalog.Indexed ∧ P d := by
  induction h with
  | start h => exact hstart _ h
  | handle _ call r ih => exact handle_induction (hstep call r) ih.1 ih.2
  | @release d _ call file share ih =>
      have hperformed : ∃ r, Performed call r d (d.release (call.after 0) file share).2 := by
        cases share with
        | one => exact ⟨.release file, performed_release (share_release file) 0⟩
        | all => exact ⟨.releaseAll, performed_release rfl 0⟩
      rw [Call.after_zero] at hperformed
      obtain ⟨r, hperformed⟩ := hperformed
      exact ⟨hperformed.indexed ih.1, hstep call r _ _ ih.1 ih.2 hperformed⟩

end FileDirectory.Directory
