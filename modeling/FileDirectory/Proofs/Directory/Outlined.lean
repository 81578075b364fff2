/-
**A recorded directory, sector by sector.**

What a directory records is a list of file sets, one for each operation that the catalog accepts, and
the directory that is kept in memory only would record the same.  So the contents of all sectors after a
history, in any pattern of failing attempts at writing, come from recording this list in the outline of
the store, sector by sector.

Main definitions:

* `FileDirectory.Directory.changes` — the file sets that the operations of a history record;
* `FileDirectory.Directory.Outlined` — a recorded directory whose store has a given outline.

Main results:

* `FileDirectory.Directory.Alike.changes` — the directory in memory would record the same;
* `FileDirectory.Directory.Outlined.after` — the outline of the store after a history;
* `FileDirectory.Directory.Outlined.reply` — what an operation replies, going by the outline;
* `FileDirectory.Directory.outlined_format`, `FileDirectory.Directory.outlined_after` — the outline of a
  directory that was just set up, and after a history from there on.
-/

import FileDirectory.Proofs.Directory.Alike
import FileDirectory.Proofs.Store.Outline

set_option autoImplicit false

namespace FileDirectory

open Catalog

/-! ### Outlines that are written -/

namespace Device.Outline

variable {o : Outline} {ws : List Write}

@[simp] theorem fails_write : (o.write ws).1.fails = o.fails := by
  induction ws generalizing o with
  | nil => rfl
  | cons w ws ih =>
      rw [write]
      split <;> exact ih

@[simp] theorem attempts_write : (o.write ws).1.attempts = o.attempts + ws.length := by
  induction ws generalizing o with
  | nil => rfl
  | cons w ws ih =>
      rw [write, List.length_cons]
      split <;> exact ih.trans (Nat.add_right_comm _ _ _)

/-- Writes succeed as long as no attempt fails. -/
theorem write_eq_nil (h : ∀ attempt, o.attempts ≤ attempt → attempt < o.attempts + ws.length →
    ∀ sector, o.fails attempt sector = false) : (o.write ws).2 = [] := by
  induction ws generalizing o with
  | nil => rfl
  | cons w ws ih =>
      rw [List.length_cons] at h
      rw [write, h o.attempts (Nat.le_refl _) (by omega)]
      exact ih fun attempt hle hlt => h attempt (Nat.le_of_succ_le hle) (by dsimp only at hlt; omega)

end Device.Outline

namespace Directory

/-! ### What a history records -/

/-- What an operation records: a file set, or its absence. -/
def changed {α : Type} (_ : Directory) (outcome : Except Failure (Change α)) :
    List (SetName × Option FileSet) :=
  match outcome with
  | .error _ => []
  | .ok change => [(change.touched, change.catalog.find? change.touched)]

/-- What the operations of a history record, in their order. -/
def changes (d : Directory) : List (Call × Request) → List (SetName × Option FileSet)
  | [] => []
  | (call, r) :: history => d.trace changed call r ++ (d.handle call r).2.changes history

theorem changes_append (d : Directory) (earlier later : List (Call × Request)) :
    d.changes (earlier ++ later) = d.changes earlier ++ (d.after earlier).changes later := by
  induction earlier generalizing d with
  | nil => rfl
  | cons request earlier ih =>
      rw [List.cons_append, changes, changes, ih, List.append_assoc, after_cons]

variable {plain recorded d : Directory} {call : Call}

theorem Follows.aborted {α : Type} {answer answer' : Except Failure α} (h : Follows answer answer') :
    aborted answer' = aborted answer := by
  cases h with
  | same => rfl
  | medium hkind =>
      unfold Directory.aborted
      dsimp only
      rw [hkind]

theorem Alike.traceEach_changed (h : Alike plain recorded) (looks : Nat) (files : List FileId) :
    traceEach changed call recorded looks files = traceEach changed call plain looks files := by
  induction files generalizing plain recorded looks with
  | nil => rfl
  | cons file files ih =>
      obtain ⟨hnext, hanswer⟩ := h.release (call.after looks) file .all
      rw [traceEach, traceEach, hanswer.aborted, ih hnext, h.catalog]
      rfl

/-- **A directory in memory would record the same.** -/
theorem Alike.trace_changed (h : Alike plain recorded) (call : Call) (r : Request) :
    recorded.trace changed call r = plain.trace changed call r := by
  cases hquery : r.isQuery with
  | true => rw [trace_of_isQuery changed _ _ hquery, trace_of_isQuery changed _ _ hquery]
  | false =>
      by_cases hr : r = .releaseAll
      · subst hr
        unfold trace
        rw [h.heldBy, h.traceEach_changed]
      · obtain ⟨α, outcome, reply, -, hoperation⟩ := exists_operation plain.catalog call hr hquery
        rw [(hoperation plain rfl).2 changed, (hoperation recorded h.catalog).2 changed]
        rfl

theorem Alike.changes (h : Alike plain recorded) (history : List (Call × Request)) :
    recorded.changes history = plain.changes history := by
  induction history generalizing plain recorded with
  | nil => rfl
  | cons request history ih =>
      obtain ⟨call, r⟩ := request
      rw [Directory.changes, Directory.changes, h.trace_changed, ih (h.handle call r).1]

/-! ### Recording it -/

end Directory

/-- The outline of a store in which file sets were recorded one after another. -/
def Store.Outline.follow (o : Store.Outline) (changes : List (SetName × Option FileSet)) :
    Store.Outline :=
  changes.foldl (fun o change => (o.record change.1 change.2).1) o

theorem Store.Outline.follow_append (o : Store.Outline)
    (first rest : List (SetName × Option FileSet)) :
    o.follow (first ++ rest) = (o.follow first).follow rest := List.foldl_append

namespace Directory

variable {plain recorded d : Directory} {call : Call} {o : Store.Outline}

/-- A recorded directory whose store has a given outline. -/
structure Outlined (d : Directory) (o : Store.Outline) : Prop where
  indexed : d.catalog.Indexed
  stored : ∃ store, d.store = some store ∧ store.Keeps d.catalog ∧ store.outline = o

/-- What an operation records, going by the outline, and what it answers. -/
theorem Outlined.perform_ok (h : d.Outlined o) {α : Type} {change : Change α}
    (hsteps : change.Steps call d.catalog) :
    (d.perform (.ok change)).2.Outlined
        (o.record change.touched (change.catalog.find? change.touched)).1 ∧
      (d.perform (.ok change)).1 =
        match (o.record change.touched (change.catalog.find? change.touched)).2 with
        | none => .ok change.answer
        | some f => .error f := by
  obtain ⟨hindexed, store, hstore, hkeeps, rfl⟩ := h
  have hindexed' := hsteps.indexed hindexed
  rw [← store.outline_record _ _ (hkeeps.sector_lt hindexed hindexed' _)]
  refine ⟨⟨?_, _, store_perform_ok hstore change, ?_, rfl⟩, answer_perform_recorded hstore change⟩
  · rwa [catalog_perform_ok]
  · rw [catalog_perform_ok]
    exact hsteps.keeps hindexed hkeeps

theorem Outlined.perform (h : d.Outlined o) {α : Type} (outcome : Except Failure (Change α))
    (hsteps : ∀ change, outcome = .ok change → change.Steps call d.catalog) :
    (d.perform outcome).2.Outlined (o.follow (d.changed outcome)) := by
  cases outcome with
  | error f => exact h
  | ok change => exact (h.perform_ok (hsteps change rfl)).1

theorem Outlined.handle (h : d.Outlined o) (call : Call) (r : Request) :
    (d.handle call r).2.Outlined (o.follow (d.trace changed call r)) := by
  refine trace_induction changed (P := fun e changes => e.Outlined (o.follow changes)) ?_ h r
  intro α e changes outcome hsteps he
  rw [Store.Outline.follow_append]
  exact he.perform outcome (hsteps he.indexed)

/-- **The outline of a store after a history** is what recording the file sets comes to that the
operations record, in any pattern of failing attempts at writing. -/
theorem Outlined.after (h : d.Outlined o) (history : List (Call × Request)) :
    (d.after history).Outlined (o.follow (d.changes history)) := by
  induction history generalizing d o with
  | nil => exact h
  | cons request history ih =>
      obtain ⟨call, r⟩ := request
      rw [changes, Store.Outline.follow_append]
      exact ih (h.handle call r)

/-- **What an operation replies**, if it succeeds in memory and nothing goes wrong in the outline. -/
theorem Outlined.reply (h : recorded.Outlined o) (halike : Alike plain recorded) (r : Request)
    (hr : r ≠ .releaseAll) (hquery : r.isQuery = false) {reply : Reply}
    (hreply : (plain.handle call r).1 = .ok reply)
    (hnone : ∀ change ∈ plain.trace changed call r, (o.record change.1 change.2).2 = none) :
    (recorded.handle call r).1 = .ok reply := by
  obtain ⟨α, outcome, reply', hsteps, hoperation⟩ := exists_operation plain.catalog call hr hquery
  rw [(hoperation plain rfl).1] at hreply
  rw [(hoperation plain rfl).2 changed] at hnone
  rw [(hoperation recorded halike.catalog).1]
  cases outcome with
  | error f => cases hreply
  | ok change =>
      have hindexed : plain.catalog.Indexed := halike.catalog ▸ h.indexed
      have hchange : change.Steps call recorded.catalog :=
        halike.catalog ▸ hsteps hindexed change rfl
      have hanswer := (h.perform_ok hchange).2
      rw [hnone _ List.mem_cons_self] at hanswer
      unfold replied at hreply ⊢
      rw [answer_perform_memory halike.memory] at hreply
      rw [hanswer]
      exact hreply

/-! ### A directory that was just set up -/

/-- Sectors are cleared if all writes of zeros to them succeed. -/
theorem clear_of_write {device : Device} {sectors : List Nat}
    (h : (Store.write device (Staging.clearing sectors)).2 = []) :
    clear device sectors = .ok (Store.write device (Staging.clearing sectors)).1 := by
  induction sectors generalizing device with
  | nil => rfl
  | cons sector sectors ih =>
      change (Store.write device (⟨sector, Sector.zero, none⟩ :: Staging.clearing sectors)).2 = [] at h
      change _ = Except.ok
        (Store.write device (⟨sector, Sector.zero, none⟩ :: Staging.clearing sectors)).1
      rw [Store.write] at h ⊢
      rw [clear]
      generalize device.write sector Sector.zero = outcome at h ⊢
      obtain ⟨answer, device'⟩ := outcome
      cases answer with
      | error e => cases h
      | ok u => exact ih h

/-- The outline of a device once its sectors have been cleared, all of which are free. -/
def clearedOutline (device : Device) : Store.Outline where
  device := {
    contents := List.replicate device.sectorCount Sector.zero
    fails := device.failsWrite
    attempts := device.sectorCount }
  inUse := List.replicate device.sectorCount false

/-- **A directory can be set up on a device that does not fail meanwhile.**  Its sectors are clear and
free. -/
theorem outlined_format (config : Configuration) (device : Device) (hnew : device.attempts = 0)
    (hmedium : device.medium.failWrites = false)
    (hworks : ∀ attempt < device.sectorCount, ∀ sector, device.failsWrite attempt sector = false) :
    ∃ d, format config device = .ok d ∧ d.Outlined (clearedOutline device) := by
  have hlength : (Staging.clearing (List.range device.sectorCount)).length = device.sectorCount := by
    rw [Staging.clearing, List.length_map, List.length_range]
  have hwrite := Store.outline_write device (Staging.clearing (List.range device.sectorCount)) (by
    intro w hw
    obtain ⟨sector, hsector, rfl⟩ := List.mem_map.1 hw
    exact List.mem_range.1 hsector)
  have hattempts : device.outline.attempts = 0 := hnew
  have hfails : device.outline.fails = device.failsWrite := by
    funext attempt sector
    change (device.failsWrite attempt sector || device.medium.failWrites) = _
    rw [hmedium, Bool.or_false]
  have hnone : (Store.write device (Staging.clearing (List.range device.sectorCount))).2 = [] := by
    refine (congrArg Prod.snd hwrite).trans (Device.Outline.write_eq_nil fun attempt _ hlt => ?_)
    rw [hlength, hattempts, Nat.zero_add] at hlt
    rw [hfails]
    exact hworks attempt hlt
  have hclear := clear_of_write hnone
  obtain ⟨hcount, hread, -⟩ := read_clear hclear
  have houtline : (Store.write device (Staging.clearing (List.range device.sectorCount))).1.outline =
      (device.outline.write (Staging.clearing (List.range device.sectorCount))).1 :=
    congrArg Prod.fst hwrite
  generalize (Store.write device (Staging.clearing (List.range device.sectorCount))).1 = cleared
    at hclear hcount hread houtline
  refine ⟨_, by rw [format, hclear], indexed_empty config, _, rfl, keeps_format config cleared, ?_⟩
  have hcontents : cleared.medium.contents = List.replicate device.sectorCount Sector.zero := by
    refine List.ext_getElem? fun sector => ?_
    rw [Medium.getElem?_contents, List.getElem?_replicate]
    by_cases hlt : sector < device.sectorCount
    · rw [hread sector (List.mem_range.2 hlt), if_pos hlt]
      rfl
    · have hge : cleared.medium.sectorCount ≤ sector := by
        change cleared.sectorCount ≤ sector
        omega
      rw [Medium.read_of_ge hge, if_neg hlt]
      rfl
  have hdevice : cleared.outline = (clearedOutline device).device := by
    refine Device.Outline.ext hcontents ?_ ?_
    · rw [houtline, Device.Outline.fails_write, hfails]
      rfl
    · rw [houtline, Device.Outline.attempts_write, hlength, hattempts, Nat.zero_add]
      rfl
  rw [Store.outline, hdevice, hcount]
  rfl

/-- **The outline after a history**, from the directory being set up on. -/
theorem outlined_after (config : Configuration) (device : Device) (hnew : device.attempts = 0)
    (hmedium : device.medium.failWrites = false)
    (hworks : ∀ attempt < device.sectorCount, ∀ sector, device.failsWrite attempt sector = false) :
    ∃ d, format config device = .ok d ∧ ∀ history, (d.after history).Outlined
      ((clearedOutline device).follow ((empty config).changes history)) := by
  obtain ⟨d, hformat, houtlined⟩ := outlined_format config device hnew hmedium hworks
  exact ⟨d, hformat, fun history => (alike_format hformat).changes history ▸ houtlined.after history⟩

end Directory

end FileDirectory
