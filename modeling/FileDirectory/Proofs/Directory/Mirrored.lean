/-
**A directory that has met no failure.**

Starting from a directory that was set up, as long as no operation meets an error of the medium,
every item fits into its records, the pack is divided among the cycles and the free space, and the
medium mirrors the catalog.

Main definitions:

* `FileDirectory.Catalog.Fit` — what of this holds of the catalog alone;
* `FileDirectory.Directory.Mirrored` — all of this, of a directory.

Main results:

* `FileDirectory.Directory.Mirrored.after`, `FileDirectory.Directory.mirrored_after` — it holds after
  every history without a failure;
* `FileDirectory.Directory.timed_after` — so do readings of the clock fit, if the clock does.
-/

import FileDirectory.Proofs.Catalog.Partition
import FileDirectory.Proofs.Catalog.Recordable
import FileDirectory.Proofs.Directory.Quiet
import FileDirectory.Proofs.Directory.Recorded
import FileDirectory.Proofs.Store.Mirrored

set_option autoImplicit false

namespace FileDirectory

open Catalog

/-! ### Catalogs that can be recorded -/

namespace Catalog

/-- The catalog has the given configuration, it can be recorded, and its cycles and the free space
divide the pack. -/
structure Fit (config : Configuration) (c : Catalog) : Prop where
  config_eq : c.config = config
  capacity : c.space.capacity = min config.packTracks Word.maxValue
  recordable : c.Recordable
  partitioned : c.Partitioned

variable {config : Configuration} {c : Catalog}

theorem Step.fit (hconfig : config.defaultMaxRange < 2 ^ 18) {call : Call} {set : FileSet}
    {space : FreeSpace} {last : Nat} (hs : Step call c set space last) (h : c.Fit config)
    (hc : c.Indexed) : ({ c with space := space, lastFile := last }.put set).Fit config := by
  obtain ⟨rfl, hcapacity, hrecordable, hpartitioned⟩ := h
  refine ⟨config_put _ _, ?_, hs.recordable hrecordable hc hconfig, hs.partitioned hpartitioned hc⟩
  rw [space_put]
  exact (hs.capacity_eq hpartitioned.divided hc).trans hcapacity

end Catalog

namespace Directory

/-- The directory runs with the given configuration, its catalog can be recorded, its cycles and the
free space divide the pack, and the medium mirrors the catalog. -/
structure Mirrored (config : Configuration) (d : Directory) : Prop where
  indexed : d.catalog.Indexed
  config_eq : d.catalog.config = config
  capacity : d.catalog.space.capacity = min config.packTracks Word.maxValue
  recordable : d.catalog.Recordable
  partitioned : d.catalog.Partitioned
  mirrors : ∃ store, d.store = some store ∧ store.Mirrors d.catalog

theorem Mirrored.fit {config : Configuration} {d : Directory} (h : Mirrored config d) :
    d.catalog.Fit config := ⟨h.config_eq, h.capacity, h.recordable, h.partitioned⟩

/-- A directory that was just set up has met no failure. -/
theorem mirrored_format {config : Configuration} {device : Device} {d : Directory}
    (h : format config device = .ok d) : Mirrored config d := by
  obtain ⟨device', rfl, hclear⟩ := format_eq_ok h
  exact ⟨indexed_empty config, rfl, rfl, recordable_empty config, partitioned_empty config, _, rfl,
    Store.Mirrors.format config hclear⟩

/-- **An operation that meets no failure** leaves a directory that has met none. -/
theorem Operated.mirrored {config : Configuration} (hconfig : config.defaultMaxRange < 2 ^ 18)
    {call : Call} {d d' : Directory} (h : Operated call d d' none) (hd : Mirrored config d) :
    Mirrored config d' := by
  have hfit := hd.fit
  obtain ⟨hindexed, -, -, -, -, store, hstore, hmirrors⟩ := hd
  cases h with
  | memory hnone _ =>
      rw [hnone] at hstore
      cases hstore
  | @medium set space last _ _ before after _ hsome hstep hrecord =>
      obtain rfl : before = store := Option.some.inj (hsome.symm.trans hstore)
      obtain ⟨heq, hcapacity, hrecordable, hpartitioned⟩ := hstep.fit hconfig hfit hindexed
      refine ⟨hstep.indexed hindexed, heq, hcapacity, hrecordable, hpartitioned, after, rfl, ?_⟩
      have hframe : ∀ t : FileSet, t.name ≠ set.name →
          (t ∈ ({ d.catalog with space := space, lastFile := last }.put set).sets ↔
            t ∈ d.catalog.sets) :=
        fun t hne => mem_sets_put_of_ne (c := { d.catalog with space := space, lastFile := last })
          hindexed.ordered hne
      have hkept := hmirrors.record hindexed (hstep.indexed hindexed) hframe
        (congrArg Prod.snd hrecord)
      rw [hrecord] at hkept
      exact hkept

/-- **After a history without an error of the medium** a directory that had met no failure has met
none. -/
theorem Mirrored.after {config : Configuration} (hconfig : config.defaultMaxRange < 2 ^ 18)
    {d : Directory} (hd : Mirrored config d) {history : List (Call × Request)}
    (hquiet : d.Quiet history) (htold : d.Told history) : Mirrored config (d.after history) := by
  refine (quiet_induction (P := Mirrored config) ?_ hd.indexed hd hquiet htold).1
  intro call e e' _ he hop
  exact hop.mirrored hconfig he

theorem mirrored_after {config : Configuration} (hconfig : config.defaultMaxRange < 2 ^ 18)
    {device : Device} {d : Directory} (hformat : format config device = .ok d)
    {history : List (Call × Request)} (hquiet : d.Quiet history) (htold : d.Told history) :
    Mirrored config (d.after history) := (mirrored_format hformat).after hconfig hquiet htold

/-- The readings of the clock in all items fit into words. -/
def Timed (d : Directory) : Prop := ∀ set ∈ d.catalog.sets, ∀ c ∈ set.cycles, c.item.Timed

theorem Operated.timed {call : Call} (hnow : call.now < 2 ^ 36) {d d' : Directory}
    {trouble : Option Failure} (h : Operated call d d' trouble) (hindexed : d.catalog.Indexed)
    (hd : Timed d) : Timed d' := by
  cases h with
  | memory _ hstep => exact hstep.timed hindexed hnow hd
  | medium _ hstep _ => exact hstep.timed hindexed hnow hd

/-- Readings of the clock fit into words if every call was made at a time that does. -/
theorem timed_after {config : Configuration} {device : Device} {d : Directory}
    (hformat : format config device = .ok d) {history : List (Call × Request)}
    (hclock : ∀ request ∈ history, request.1.now < 2 ^ 36) : Timed (d.after history) := by
  obtain ⟨device', rfl, -⟩ := format_eq_ok hformat
  refine (called_induction (P := Timed) (Q := fun call => call.now < 2 ^ 36) ?_
    (indexed_empty config) ?_ hclock).1
  · intro call e e' trouble hnow hindexed he hop
    exact hop.timed hnow hindexed he
  · intro set hset
    cases hset

end Directory

end FileDirectory
