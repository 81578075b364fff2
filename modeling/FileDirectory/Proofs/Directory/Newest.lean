/-
**The cycle after the highest one is the newest.**

Whoever creates a cycle without saying which, or the one after the highest, gets the next number of
the file set.  The cycle becomes the highest and the newest one of the set, and once it is live it is
what the latest cycle means until a newer one is created, as long as the range of the set is short of
the circle of numbers.  In a set that has cycles and whose range is all of the circle it does not: the
highest cycle stays what it is, and the new one is the oldest.

Main definitions:

* `FileDirectory.Request.created` — how a request names the cycle that it creates;
* `FileDirectory.Directory.Orderly` — a directory made empty, or recovered with numbers on the circle.

Main results:

* `FileDirectory.Directory.succeeds_of_created` — what the creation of the next cycle makes of its set.
-/

import FileDirectory.Proofs.Catalog.Newest
import FileDirectory.Proofs.Directory.Windowed

set_option autoImplicit false

namespace FileDirectory

/-- How a request names the cycle that it creates. -/
def Request.created : Request → Option CycleSpec
  | .createTape r => some r.cycle
  | .createDisk r => some r.cycle
  | _ => none

namespace Directory

open Catalog

variable {config : Configuration} {d : Directory}

/-- The directory was just made empty, or recovered with the numbers of every file set on the circle
and apart, which recovery leaves unchecked. -/
def Orderly (config : Configuration) (d : Directory) : Prop :=
  Made config d ∨ Recovered config d ∧ ∀ set ∈ d.catalog.sets, set.OnCircle

theorem onCircle_of_reached (h : Reached (Orderly config) d) :
    d.catalog.Indexed ∧ ∀ set ∈ d.catalog.sets, set.OnCircle := by
  refine h.induction (P := fun c => ∀ set ∈ c.sets, set.OnCircle) ?_ ?_
  · rintro d (hmade | ⟨hrecovered, hcircle⟩)
    · rw [hmade.catalog_eq]
      exact ⟨indexed_empty config, (windows_empty config).onCircle⟩
    · exact ⟨hrecovered.indexed, hcircle⟩
  · intro call c set space last hc hcircle hs
    exact forall_sets_put hc.ordered hcircle (hs.onCircle hc hcircle)

/-- An operation that succeeds has changed the catalog as it says. -/
theorem perform_eq_ok {α : Type} {outcome : Except Failure (Change α)} {answer : α}
    (h : (d.perform outcome).1 = .ok answer) :
    ∃ change, outcome = .ok change ∧ change.answer = answer ∧
      (d.perform outcome).2.catalog = change.catalog := by
  cases outcome with
  | error f => cases h
  | ok change =>
      refine ⟨change, rfl, ?_, catalog_perform_ok d change⟩
      rcases answer_perform_cases d change with ⟨hanswer, -⟩ | ⟨f, -, hanswer⟩
      · exact Except.ok.inj (hanswer.symm.trans h)
      · cases h.symm.trans hanswer

theorem ok_of_replied {outcome : Except Failure FileId × Directory} {file : FileId}
    (h : (replied .file outcome).1 = .ok (.file file)) : outcome.1 = .ok file := by
  obtain ⟨answer, d⟩ := outcome
  cases answer with
  | error f => cases h
  | ok a =>
      cases h
      rfl

/-- A creation that succeeds has created a cycle as the request says. -/
theorem create_of_created {call : Call} {r : Request} {spec : CycleSpec} (hr : r.created = some spec)
    {file : FileId} (h : (d.handle call r).1 = .ok (.file file)) :
    ∃ creation change, WellFormed d.catalog.config creation ∧ creation.cycle = spec ∧
      d.catalog.create call creation = .ok change ∧ change.answer = file ∧
      (d.handle call r).2.catalog = change.catalog := by
  cases r with
  | createTape r =>
      cases hr
      obtain ⟨change, hchange, hanswer, hcatalog⟩ := perform_eq_ok (ok_of_replied h)
      obtain ⟨creation, hwell, -, -, hcycle, -, -, hcreate⟩ := createTape_eq_ok hchange
      exact ⟨creation, change, hwell, hcycle, hcreate, hanswer, hcatalog⟩
  | createDisk r =>
      cases hr
      obtain ⟨change, hchange, hanswer, hcatalog⟩ := perform_eq_ok (ok_of_replied h)
      obtain ⟨creation, hwell, -, -, hcycle, -, -, hcreate⟩ := createDisk_eq_ok hchange
      exact ⟨creation, change, hwell, hcycle, hcreate, hanswer, hcatalog⟩
  | _ => cases hr

/-- However the directory goes on, the latest cycle of its set means this one once it is live, while
no cycle of the set that was created after it is newer. -/
def StaysLatest (d : Directory) (file : FileId) : Prop :=
  ∀ history, ∀ set ∈ (d.after history).catalog.sets, ∀ cycle ∈ set.cycles, cycle.file = file →
    cycle.item.state = .live →
    (∀ other ∈ set.cycles, file.number < other.file.number → ¬set.Newer other.file file) →
    ∀ client, set.resolve? (.relative 0) client = some cycle ∧
      set.resolve? .unspecified client = some cycle

/-- The foremost cycle of a set stays the latest one, if it has the last identifier given out. -/
theorem staysLatest_of_foremost (hc : d.catalog.Indexed)
    (hcircle : ∀ set ∈ d.catalog.sets, set.OnCircle) {set : FileSet} (hset : set ∈ d.catalog.sets)
    {cycle : FileCycle} (hcycle : cycle ∈ set.cycles)
    (hlast : cycle.file.number = d.catalog.lastFile) (hfore : set.Foremost cycle.file) :
    d.StaysLatest cycle.file := by
  intro history later hlater e he hfile hlive hnone client
  obtain ⟨hc', hcircle', haged⟩ := aged_after hc hcircle history
  -- cycles with a higher identifier were created after it, all others were older before
  have hlaterfore := haged.foremost hc hset hcycle hlast hfore hlater (hcircle' later hlater) he hfile
    hnone
  rw [← hfile] at hlaterfore
  exact FileSet.resolve?_of_foremost (hc'.nodup later hlater) he hlive hlaterfore client

/-- **What the creation of the next cycle makes of its set**: the cycle has the next number, and it
becomes the highest cycle and the first that is listed, and stays the latest one, if the set is new or
its range is short of the circle.  Otherwise the highest cycle stays what it is, and the new cycle is
the oldest. -/
theorem succeeds_of_created (h : Reached (Orderly config) d) {call : Call} {r : Request}
    {spec : CycleSpec} (hr : r.created = some spec) (hspec : spec.IsNext) {file : FileId}
    (hanswer : (d.handle call r).1 = .ok (.file file)) :
    ∃ set ∈ (d.handle call r).2.catalog.sets, ∃ cycle ∈ set.cycles, cycle.file = file ∧
      Succeeds d.catalog set cycle ∧
      (d.catalog.MovesUp set → (d.handle call r).2.StaysLatest file) := by
  obtain ⟨hc, hcircle⟩ := onCircle_of_reached h
  obtain ⟨creation, change, hwell, rfl, hcreate, rfl, hcatalog⟩ := create_of_created hr hanswer
  obtain ⟨set, hset, cycle, hcycle, hfile, hlast, hsucceeds⟩ :=
    succeeds_of_create hc hcircle hwell hspec hcreate
  obtain ⟨hc', hcircle', -⟩ := aged_handle hc hcircle call r
  rw [← hcatalog] at hset hlast
  refine ⟨set, hset, cycle, hcycle, hfile, hsucceeds, ?_⟩
  intro hup
  have hfore : set.Foremost cycle.file :=
    (FileSet.foremost_iff (hc'.nodup set hset) (hcircle' set hset) (List.mem_map_of_mem hcycle)).2
      (hsucceeds.first_iff.2 hup)
  rw [← hfile] at hlast ⊢
  exact staysLatest_of_foremost hc' hcircle' hset hcycle hlast hfore

/-- A tape file whose range is all of the circle, with the cycle 1. -/
def fullCircle : Directory :=
  (empty {}).after [
    (⟨⟨1, "RUN1", "USER"⟩, 5, none⟩, .createTape ⟨"Q", "A", .absolute 1, "", "", 999⟩),
    (⟨⟨1, "RUN1", "USER"⟩, 6, none⟩, .catalog ⟨1⟩)]

/-- The next cycle of the tape file. -/
def createNext : Call × Request :=
  (⟨⟨1, "RUN1", "USER"⟩, 7, none⟩, .createTape ⟨"Q", "A", .relative 1, "", "", 0⟩)

theorem succeeds_of_created_fullCircle :
    ((fullCircle.after [createNext]).catalog.sets.map fun set =>
        (set.lead.highest, set.currentRange)) = [(1, 999)] ∧
      ∃ set ∈ (fullCircle.handle createNext.1 createNext.2).2.catalog.sets, ∃ cycle ∈ set.cycles,
        cycle.file = ⟨2⟩ ∧ Succeeds fullCircle.catalog set cycle ∧
        (fullCircle.catalog.MovesUp set →
          (fullCircle.handle createNext.1 createNext.2).2.StaysLatest ⟨2⟩) := by
  have hreached : Reached (Orderly {}) fullCircle :=
    reached_after (.start (Or.inl (Or.inl rfl))) _
  have hanswer : (fullCircle.handle createNext.1 createNext.2).1 = .ok (.file ⟨2⟩) := by
    decide +kernel
  exact ⟨by decide +kernel, succeeds_of_created hreached rfl (Or.inr rfl) hanswer⟩

end Directory

end FileDirectory
