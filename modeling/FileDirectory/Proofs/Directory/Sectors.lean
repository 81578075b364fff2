/-
**Every sector has at most one owner.**

The lead items of the file sets and the cycles own the sectors that their records are in.  Starting
from a directory that was set up, whatever is asked of it and whatever attempts at writing fail, no
sector has two owners, sectors that are not in use are clear, and those that are in use without an
owner are lost to writes that failed to clear them.

Main definitions:

* `FileDirectory.Directory.failures` — the sector writes that fail in the course of a history;
* `FileDirectory.Directory.Allots` — who owns which sectors, and what the others hold.

Main results:

* `FileDirectory.Directory.Accounted.perform` — every operation keeps the sectors accounted for;
* `FileDirectory.Directory.allots_after` — they are allotted so after every history.
-/

import FileDirectory.Proofs.Directory.Journal
import FileDirectory.Proofs.Store.Vacant

set_option autoImplicit false

namespace FileDirectory.Directory

open Catalog Store

/-! ### Writes that fail -/

/-- The sector writes of a request that fail. -/
def failedWrites (d : Directory) (call : Call) (r : Request) : List WriteFailure :=
  (d.device?.map fun device => (Store.write device (d.writes call r)).2).getD []

/-- The sector writes that fail in the course of a history. -/
def failures (d : Directory) : List (Call × Request) → List WriteFailure
  | [] => []
  | (call, r) :: history => d.failedWrites call r ++ (d.handle call r).2.failures history

/-! ### Sectors that are accounted for -/

/-- A directory is recorded, its file sets have their sectors, and the other sectors are accounted for
by the writes that failed. -/
structure Accounted (d : Directory) (failures : List WriteFailure) : Prop where
  indexed : d.catalog.Indexed
  recorded : ∃ store, d.store = some store ∧ store.Keeps d.catalog ∧ store.Vacated failures

variable {d : Directory} {call : Call} {earlier : List WriteFailure}

/-- **Every operation keeps the sectors accounted for**, those of its writes that failed being added to
those that did before. -/
theorem Accounted.perform {α : Type} (h : d.Accounted earlier) {outcome : Except Failure (Change α)}
    (hsteps : ∀ change, outcome = .ok change → change.Steps call d.catalog) {device : Device}
    (hdevice : d.device? = some device) :
    (d.perform outcome).2.Accounted (earlier ++ (Store.write device (d.journal outcome)).2) := by
  obtain ⟨hindexed, store, hstore, hkeeps, hvacated⟩ := h
  have hsame : store.device = device := by
    rw [device?, hstore] at hdevice
    exact Option.some.inj hdevice
  cases outcome with
  | error f =>
      have hnothing : (Store.write device (d.journal (.error f : Except Failure (Change α)))).2 = [] :=
        rfl
      rw [hnothing, List.append_nil]
      exact ⟨hindexed, store, hstore, hkeeps, hvacated⟩
  | ok change =>
      have hchange := hsteps change rfl
      have hindexed' := hchange.indexed hindexed
      have hjournal : d.journal (.ok change) =
          (store.stage change.touched (change.catalog.find? change.touched)).2.writes := by
        unfold journal
        rw [hstore]
      rw [hjournal, ← hsame]
      refine ⟨?_, _, store_perform_ok hstore change, ?_,
        hvacated.record hkeeps hindexed hindexed'⟩
      · rw [catalog_perform_ok]
        exact hindexed'
      · rw [catalog_perform_ok]
        exact hchange.keeps hindexed hkeeps

/-- Every request keeps the sectors accounted for. -/
theorem Accounted.handle (h : d.Accounted earlier) (call : Call) (r : Request) :
    (d.handle call r).2.Accounted (earlier ++ d.failedWrites call r) := by
  obtain ⟨store, hstore, -⟩ := h.recorded
  have hdevice : d.device? = some store.device := by rw [device?, hstore]; rfl
  have hfailed : d.failedWrites call r = (Store.write store.device (d.writes call r)).2 := by
    rw [failedWrites, hdevice]
    rfl
  rw [hfailed]
  refine (writes_induction (P := fun e ws => e.device? = some (Store.write store.device ws).1 ∧
    e.Accounted (earlier ++ (Store.write store.device ws).2)) ?_ ⟨hdevice, ?_⟩ r).2
  · rintro α e ws outcome hsteps ⟨he, haccounted⟩
    refine ⟨?_, ?_⟩
    · rw [device_perform, he, Option.map_some, write_append]
    · rw [write_append, ← List.append_assoc]
      exact haccounted.perform (hsteps haccounted.indexed) he
  · simpa using h

/-- So does every history. -/
theorem Accounted.after (h : d.Accounted earlier) (history : List (Call × Request)) :
    (d.after history).Accounted (earlier ++ d.failures history) := by
  induction history generalizing d earlier with
  | nil => simpa [failures] using h
  | cons request history ih =>
      obtain ⟨call, r⟩ := request
      rw [failures, ← List.append_assoc]
      exact ih (h.handle call r)

theorem accounted_format {config : Configuration} {device : Device}
    (h : format config device = .ok d) : d.Accounted [] := by
  obtain ⟨device', rfl, hclear⟩ := format_eq_ok h
  refine ⟨indexed_empty config, _, rfl, keeps_format config device', ?_, ?_⟩
  · intro sector hfree
    have hlt := (List.getElem?_eq_some_iff.1 hfree).1
    rw [List.length_replicate] at hlt
    exact hclear sector hlt
  · intro sector hused
    have hin := List.mem_of_getElem? hused
    rw [List.mem_replicate] at hin
    cases hin.2

/-! ### Who owns the sectors -/

/-- How the sectors of a medium are allotted: to the lead items of the file sets of the catalog and to
their cycles, and to nobody. -/
structure Allots (c : Catalog) (s : Store) (failures : List WriteFailure) : Prop where
  /-- Each file set has one placement, -/
  sets : (s.placed.map Prod.fst).Nodup ∧
    ∀ name, name ∈ s.placed.map Prod.fst ↔ ∃ set ∈ c.sets, set.name = name
  /-- in which each of its cycles has its sectors. -/
  cycles : ∀ set ∈ c.sets, (s.placement set.name).cycles.map Prod.fst = set.files
  /-- No sector has two owners, or belongs to one of them twice. -/
  nodup : s.owned.Nodup
  /-- It is known of every sector of the medium whether it is in use; -/
  length : s.inUse.length = s.device.sectorCount
  /-- those that are owned are, -/
  inUse : ∀ sector ∈ s.owned, s.inUse[sector]? = some true
  /-- those that are not are clear, -/
  clear : ∀ sector : Nat, s.inUse[sector]? = some false →
    s.device.medium.read sector = .ok Sector.zero
  /-- and those that are without being owned are lost to writes that failed to clear them. -/
  spoiled : ∀ sector : Nat, s.inUse[sector]? = some true → sector ∉ s.owned →
    ∃ f ∈ failures, f.write = { sector := sector, content := Sector.zero }
  /-- Without a sector for the lead item of a file set there are none for its cycles. -/
  headless : ∀ set ∈ c.sets, (s.placement set.name).lead = none →
    ∀ entry ∈ (s.placement set.name).cycles, entry.2 = []

/-- **Sectors are allotted so after every history** of a directory that was set up on a medium of any
size, in any pattern of failing attempts at writing. -/
theorem allots_after {config : Configuration} {device : Device} {d : Directory}
    (hformat : format config device = .ok d) (history : List (Call × Request)) :
    ∃ store, (d.after history).store = some store ∧
      Allots (d.after history).catalog store (d.failures history) := by
  have haccounted := (accounted_format hformat).after history
  rw [List.nil_append] at haccounted
  obtain ⟨-, store, hstore, hkeeps, hclear, hspoiled⟩ := haccounted
  exact ⟨store, hstore, {
    sets := ⟨hkeeps.nodup_names, hkeeps.names⟩
    cycles := hkeeps.files
    nodup := hkeeps.nodup_owned
    length := hkeeps.length_inUse
    inUse := hkeeps.inUse_of_owned
    clear := hclear
    spoiled := hspoiled
    headless := fun set _ => hkeeps.headless set.name }⟩

theorem allots_after_twoTapes :
    ∃ d, format {} { medium := .ofSectorCount 3 } = .ok d ∧
      ∃ store, (d.after twoTapes).store = some store ∧
        Allots (d.after twoTapes).catalog store (d.failures twoTapes) := by
  obtain ⟨d, hformat⟩ := format_of_healthy {} (Device.healthy_blank 3)
  exact ⟨d, hformat, allots_after hformat twoTapes⟩

end FileDirectory.Directory
