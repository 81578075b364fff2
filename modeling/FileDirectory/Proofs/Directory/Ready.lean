/-
**Operations that succeed.**

An operation succeeds in a directory that has met no failure if there is room for what the records of
its file set then take and no attempt at writing fails meanwhile.  A change of a cycle that stays on its
tracks takes no more room than before.

Main definitions:

* `FileDirectory.Directory.Ready` — there is room, and for some time no attempt at writing fails.

Main results:

* `FileDirectory.Directory.Ready.perform` — a change that takes no more sectors succeeds, and there is
  room for what is left;
* `FileDirectory.Directory.Mirrored.perform` — so it does in a directory that has met no failure, on a
  device that works;
* `FileDirectory.Directory.healthy_after` — a device that works goes on working.
-/

import FileDirectory.Proofs.Directory.Accepted
import FileDirectory.Proofs.Store.Room

set_option autoImplicit false

namespace FileDirectory

/-! ### Changes that take no more room -/

namespace Catalog

variable {c : Catalog} {call : Call}

/-- A set with a cycle changed is found in place of the set. -/
theorem find?_put_modify (hc : c.Indexed) {set : FileSet} (hset : set ∈ c.sets) (file : FileId)
    (f : FileCycle → FileCycle) :
    (c.put (set.modify file f)).find? set.name = some (set.modify file f) := by
  have hnonempty : (set.modify file f).cycles ≠ [] := fun hnil =>
    hc.nonempty set hset (List.map_eq_nil_iff.1 hnil)
  rw [find?_put hc.ordered, FileSet.name_modify, if_pos rfl, if_neg hnonempty]

/-- A change of a cycle that stays on its tracks needs no more sectors. -/
theorem missing_of_cycleStep {α : Type} {change : Change α} (hc : c.Indexed) {set : FileSet}
    {cycle after : FileCycle} (hset : set ∈ c.sets) (hcycle : cycle ∈ set.cycles)
    (hstep : CycleStep call cycle after) (htouched : change.touched = set.name)
    (hcatalog : change.catalog = c.put (set.modify cycle.file fun _ => after)) :
    ∀ changed ∈ change.catalog.find? change.touched, ∃ set ∈ c.find? change.touched,
      ∀ p : Placement, p.missing changed ≤ p.missing set := by
  obtain ⟨hfile, -, htable⟩ := hstep.keeps
  intro changed hfind
  rw [hcatalog, htouched, find?_put_modify hc hset] at hfind
  obtain rfl := Option.some.inj hfind
  refine ⟨set, (find?_eq_some_iff hc.ordered).2 ⟨hset, htouched.symm⟩, fun p => Nat.le_of_eq ?_⟩
  have hneeded : after.item.sectorsNeeded = cycle.item.sectorsNeeded := by
    rw [MainItem.sectorsNeeded, MainItem.sectorsNeeded, htable]
  have hsame : (fun d : FileCycle => d.item.sectorsNeeded - (p.sectorsOf d.file).length) after =
      cycle.item.sectorsNeeded - (p.sectorsOf cycle.file).length := by
    dsimp only
    rw [hneeded, hfile]
  rw [Placement.missing, FileSet.map_modify (hc.nodup set hset) hcycle hsame]
  rfl

end Catalog

namespace Directory

open Catalog

variable {config : Configuration} {d : Directory} {call : Call}

/-! ### Room and working devices -/

/-- The medium has room for what it lacks, and no attempt at writing before that of a given number
fails. -/
def Ready (limit : Nat) (d : Directory) : Prop :=
  ∀ store, d.store = some store → store.Keeps d.catalog ∧ store.device.Working limit ∧
    store.missing d.catalog ≤ store.inUse.spare

/-- **A change succeeds where nothing goes wrong**, if the file set that it touched lacks no more
sectors than before; and there is room for what is left. -/
theorem Ready.perform {α : Type} {change : Change α} {limit : Nat} (h : d.Ready limit)
    (hd : d.catalog.Indexed) (hsteps : change.Steps call d.catalog)
    (hless : ∀ after ∈ change.catalog.find? change.touched,
      ∃ set ∈ d.catalog.find? change.touched, ∀ p : Placement, p.missing after ≤ p.missing set)
    (hlimit : ∀ store, (d.perform (.ok change)).2.store = some store →
      store.device.attempts ≤ limit) :
    (d.perform (.ok change)).1 = .ok change.answer ∧ (d.perform (.ok change)).2.Ready limit := by
  have hd' := hsteps.indexed hd
  cases hstore : d.store with
  | none =>
      refine ⟨answer_perform_memory hstore change, fun store hsome => ?_⟩
      unfold Directory.perform at hsome
      rw [hstore] at hsome
      cases hsome
  | some store =>
      obtain ⟨hkeeps, hworking, hroom⟩ := h store hstore
      have hafter := store_perform_ok hstore change
      -- whatever sectors the set has
      have hplaced : ∀ after ∈ change.catalog.find? change.touched,
          ∃ set ∈ d.catalog.find? change.touched, (store.placement change.touched).missing after ≤
            (store.placement change.touched).missing set := by
        intro after hin
        obtain ⟨set, hset, hle⟩ := hless after hin
        exact ⟨set, hset, hle _⟩
      obtain ⟨hnone, hworking', hroom'⟩ := Store.room_record hkeeps hd hd' hworking
        (hlimit _ hafter) (fun t hne => hsteps.mem_sets_iff hd hne) hplaced hroom
      constructor
      · rw [answer_perform_recorded hstore, hnone]
      · intro store' hstore'
        rw [hafter] at hstore'
        cases hstore'
        rw [catalog_perform_ok]
        exact ⟨hsteps.keeps hd hkeeps, hworking', hroom'⟩

/-! ### A directory that has met no failure -/

/-- It has a sector for every record. -/
theorem Mirrored.missing_le (h : Mirrored config d) {store : Store} (hstore : d.store = some store) :
    store.Keeps d.catalog ∧ store.missing d.catalog ≤ store.inUse.spare := by
  obtain ⟨mirror, hmirror, hmirrors⟩ := h.mirrors
  obtain rfl := Option.some.inj (hmirror.symm.trans hstore)
  refine ⟨hmirrors.keeps, ?_⟩
  rw [Store.missing_eq_zero h.indexed (hmirrors.carries h.recordable).recorded]
  exact Nat.zero_le _

/-- A change that takes no more sectors succeeds in a directory that has met no failure, if the device
works. -/
theorem Mirrored.perform {α : Type} {change : Change α} (h : Mirrored config d)
    (hhealthy : ∀ store, d.store = some store → store.device.Healthy)
    (hsteps : change.Steps call d.catalog)
    (hless : ∀ after ∈ change.catalog.find? change.touched,
      ∃ set ∈ d.catalog.find? change.touched, ∀ p : Placement, p.missing after ≤ p.missing set) :
    (d.perform (.ok change)).1 = .ok change.answer := by
  obtain ⟨store, hstore, -⟩ := h.mirrors
  have hready : d.Ready (store.record change.touched
      (change.catalog.find? change.touched)).1.device.attempts := by
    intro other hother
    obtain ⟨hkeeps, hroom⟩ := h.missing_le hother
    exact ⟨hkeeps, (hhealthy other hother).working _, hroom⟩
  refine (hready.perform h.indexed hsteps hless fun other hother => ?_).1
  rw [store_perform_ok hstore] at hother
  exact Nat.le_of_eq (by rw [Option.some.inj hother])

theorem healthy_format {device : Device} (h : device.Healthy)
    (hformat : format config device = .ok d) :
    ∀ store, d.store = some store → store.device.Healthy := by
  obtain ⟨device', hclear, hcleared⟩ := clear_of_healthy h (List.range device.sectorCount)
    fun sector hsector => List.mem_range.1 hsector
  rw [format, hclear] at hformat
  cases hformat
  rintro store ⟨⟩
  exact hcleared

/-- A healthy device stays healthy however the directory on it goes on. -/
theorem healthy_after (hd : d.catalog.Indexed)
    (h : ∀ store, d.store = some store → store.device.Healthy) (history : List (Call × Request)) :
    ∀ store, (d.after history).store = some store → store.device.Healthy := by
  refine (after_induction (P := fun d => ∀ store, d.store = some store → store.device.Healthy)
    ?_ hd h history).1
  intro call d d' trouble _ hhealthy hop store hstore
  cases hop with
  | memory => cases hstore
  | @medium set space last _ _ before after _ hbefore _ hrecord =>
      cases hstore
      have hwritten := Store.healthy_write (hhealthy before hbefore) (before.stage set.name
        (({ d.catalog with space := space, lastFile := last }.put set).find? set.name)).2.writes
      have hdevice := congrArg (fun outcome => outcome.1.device) hrecord
      exact hdevice ▸ hwritten

end Directory

end FileDirectory
