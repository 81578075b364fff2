/-
**The states that a directory passes through.**

A directory is made empty, in memory only or on a medium, or is recovered from a medium.  From there
it passes through the states after requests of whatever callers, and, while somebody releases
everything, through those after each release.  What every step of the catalog preserves holds in all
of them.

Main definitions:

* `FileDirectory.Directory.Made`, `FileDirectory.Directory.Recovered` — the ways in which a directory
  comes to be;
* `FileDirectory.Directory.Reached` — the states that a directory passes through;
* `FileDirectory.Directory.crowded`, `FileDirectory.Directory.doomed` — for examples, a directory
  whose pack is nearly full, and that directory while its file is being dropped.

Main results:

* `FileDirectory.Directory.reached_after` — the state after a history is one of them;
* `FileDirectory.Directory.Reached.induction` — what every step of the catalog preserves holds in
  every state.
-/

import FileDirectory.Proofs.Directory.Format
import FileDirectory.Proofs.Directory.Operations
import FileDirectory.Proofs.Recovery.Recovered

set_option autoImplicit false

namespace FileDirectory.Directory

open Catalog

/-- The directory was just made empty, in memory only or on a medium. -/
def Made (config : Configuration) (d : Directory) : Prop :=
  d = empty config ∨ ∃ device, format config device = .ok d

/-- The directory was just recovered from a medium. -/
def Recovered (config : Configuration) (d : Directory) : Prop :=
  ∃ device device', recover config device = (.ok d, device')

/-- The states that a directory passes through that comes to be in some way. -/
inductive Reached (start : Directory → Prop) : Directory → Prop
  | start {d : Directory} (h : start d) : Reached start d
  | handle {d : Directory} (h : Reached start d) (call : Call) (r : Request) :
      Reached start (d.handle call r).2
  /-- Releasing everything passes through the states after each release. -/
  | release {d : Directory} (h : Reached start d) (call : Call) (file : FileId) (share : Share) :
      Reached start (d.release call file share).2

/-- The state after a history is one that the directory passes through. -/
theorem reached_after {start : Directory → Prop} {d : Directory} (h : Reached start d)
    (history : List (Call × Request)) : Reached start (d.after history) := by
  induction history generalizing d with
  | nil => exact h
  | cons request history ih => exact ih (h.handle request.1 request.2)

/-- What is reached from a state that was reached is reached. -/
theorem Reached.trans {start : Directory → Prop} {d e : Directory} (h : Reached start d)
    (he : Reached (· = d) e) : Reached start e := by
  induction he with
  | start heq => exact heq ▸ h
  | handle _ call r ih => exact ih.handle call r
  | release _ call file share ih => exact ih.release call file share

theorem Reached.mono {start start' : Directory → Prop} {d : Directory} (h : Reached start d)
    (hstart : ∀ e, start e → start' e) : Reached start' d := by
  induction h with
  | start h => exact .start (hstart _ h)
  | handle _ call r ih => exact ih.handle call r
  | release _ call file share ih => exact ih.release call file share

theorem Made.catalog_eq {config : Configuration} {d : Directory} (h : Made config d) :
    d.catalog = Catalog.empty config := by
  rcases h with rfl | ⟨device, hformat⟩
  · rfl
  · obtain ⟨device', rfl, -⟩ := format_eq_ok hformat
    rfl

theorem Recovered.indexed {config : Configuration} {d : Directory} (h : Recovered config d) :
    d.catalog.Indexed := by
  obtain ⟨device, device', hrecover⟩ := h
  exact (keeps_recover hrecover).1

/-- An operation takes a step in the catalog, whatever becomes of the medium. -/
theorem Operated.step {call : Call} {d d' : Directory} {trouble : Option Failure}
    (h : Operated call d d' trouble) :
    ∃ set space last, Step call d.catalog set space last ∧
      d'.catalog = { d.catalog with space := space, lastFile := last }.put set := by
  cases h with
  | memory _ hstep => exact ⟨_, _, _, hstep, rfl⟩
  | medium _ hstep _ => exact ⟨_, _, _, hstep, rfl⟩

/-- What every step of the catalog preserves, a run of operations preserves. -/
theorem Operations.catalog_induction {P : Catalog → Prop}
    (hstep : ∀ call c set space last, Indexed c → P c → Step call c set space last →
      P ({ c with space := space, lastFile := last }.put set))
    {call : Call} {d d' : Directory} {troubles : List Failure}
    (h : Operations call d d' troubles) (hd : d.catalog.Indexed ∧ P d.catalog) :
    d'.catalog.Indexed ∧ P d'.catalog := by
  induction h with
  | nil d => exact hd
  | cons first _ ih =>
      obtain ⟨set, space, last, hfirst, heq⟩ := first.step
      refine ih ⟨first.indexed hd.1, ?_⟩
      rw [heq]
      exact hstep _ _ _ _ _ hd.1 hd.2 hfirst

/-- **What every step of the catalog preserves holds in every state** that a directory passes
through, once its cycles are told apart. -/
theorem Reached.induction {start : Directory → Prop} {P : Catalog → Prop}
    (hstart : ∀ d, start d → d.catalog.Indexed ∧ P d.catalog)
    (hstep : ∀ call c set space last, Indexed c → P c → Step call c set space last →
      P ({ c with space := space, lastFile := last }.put set))
    {d : Directory} (h : Reached start d) : d.catalog.Indexed ∧ P d.catalog := by
  induction h with
  | start h => exact hstart _ h
  | handle _ call r ih =>
      obtain ⟨troubles, hrun, -⟩ := operations_handle ih.1 call r
      exact hrun.catalog_induction hstep ih
  | @release d _ call file share ih =>
      have hsteps : ∀ change, d.catalog.release call file share = .ok change →
          change.Steps call d.catalog := fun _ hchange => steps_release hchange
      obtain ⟨troubles, hrun, -⟩ := operations_perform hsteps
      exact hrun.catalog_induction hstep ih

/-- A directory on a pack of four tracks, three of which a disk file has. -/
def crowded : Directory :=
  ((empty { packTracks := 4 }).handle ⟨⟨1, "RUN1", "USER"⟩, 5, none⟩
    (.createDisk ⟨"Q", "D", .absolute 1, .track, 3, 10⟩)).2

theorem reached_crowded {start : Directory → Prop} (h : start (empty { packTracks := 4 })) :
    Reached start crowded := (Reached.start h).handle _ _

/-- That directory when a second run has assigned the file and the first has deleted it. -/
def doomed : Directory :=
  crowded.after [
    (⟨⟨1, "RUN2", "USER"⟩, 6, none⟩, .assign "Q" "D" (.absolute 1) ""),
    (⟨⟨1, "RUN1", "USER"⟩, 7, none⟩, .delete "Q" "D" (.absolute 1) "")]

theorem reached_doomed {start : Directory → Prop} (h : start (empty { packTracks := 4 })) :
    Reached start doomed := reached_after (reached_crowded h) _

end FileDirectory.Directory
