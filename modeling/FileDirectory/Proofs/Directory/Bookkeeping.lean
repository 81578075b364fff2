/-
**The assignments are kept account of in every state.**

In whatever state a directory is, made empty or recovered from any image, the number of assignments
that the item of a cycle counts is the number that its holders have, and the roster lists for each
client the cycles that it has assigned, each once, and no client that has none.  A cycle that is being
cataloged is assigned to its creator alone, and one that is being dropped is assigned to somebody.

Main definitions:

* `FileDirectory.Directory.Bookkept` — a directory whose assignments are kept account of.

Main results:

* `FileDirectory.Directory.Performed.bookkept` — every operation keeps the account;
* `FileDirectory.Directory.bookkept_of_reached` — it is kept in every state.
-/

import FileDirectory.Proofs.Catalog.Bookkeeping
import FileDirectory.Proofs.Directory.Performed
import FileDirectory.Proofs.Recovery.Healthy
import FileDirectory.Proofs.Recovery.Remains

set_option autoImplicit false

namespace FileDirectory

/-! ### Recovered cycles -/

namespace Recovery

/-- A cycle that was recovered is live, and nobody has it assigned. -/
theorem bookkept_rebuild {config : Configuration} {device : Device} {found : List Found}
    {r : Rebuilt} (hread : read device = .ok found) (h : rebuild config found = .ok r) :
    ∀ set ∈ r.catalog.sets, ∀ cycle ∈ set.cycles, cycle.Bookkept ∧ cycle.holders = [] := by
  obtain ⟨-, hrestart⟩ := rebuild_iff.1 ⟨r, h, rfl⟩
  intro set hset cycle hcycle
  rw [sets_of_restart hrestart] at hset
  obtain ⟨first, items, hcycles⟩ := mem_setsFrom hset
  obtain ⟨hcreator, hholders⟩ := mem_cyclesFrom (hcycles ▸ hcycle)
  have hin : (⟨set.lead, set.cycles.map FileCycle.item⟩ : Remains) ∈ remains found := by
    rw [← remains_setsFrom 0 (remains found)]
    exact List.mem_map.2 ⟨set, hset, rfl⟩
  obtain ⟨main, hmain, hlive, hitem⟩ := items_of_mem_remains hin _ (List.mem_map_of_mem hcycle)
  have hflags := (identity_of_mains hread hmain).2
  rw [hlive, DescriptorFlags.state] at hflags
  refine ⟨.ofLive ⟨?_, ?_, ?_⟩ ?_ hcreator ?_, hholders⟩
  · rw [hitem, hholders]
    rfl
  · rw [hholders]
    exact List.nodup_nil
  · rw [hholders]
    intro holder hholder
    cases hholder
  · rw [hitem]
    exact hlive
  · rw [hitem]
    change main.1.descriptor.toBeCataloged = false ∧ main.1.descriptor.toBeDropped = false
    split at hflags
    · cases hflags
    · rename_i hcataloged
      split at hflags
      · cases hflags
      · rename_i hdropped
        exact ⟨by simpa using hcataloged, by simpa using hdropped⟩

end Recovery

namespace Directory

open Catalog

/-! ### Directories -/

/-- The assignments of a directory are kept account of: the books of every cycle are in order, and the
roster is sound and lists for each client exactly the cycles that it has assigned. -/
structure Bookkept (d : Directory) : Prop where
  cycles : ∀ set ∈ d.catalog.sets, ∀ cycle ∈ set.cycles, cycle.Bookkept
  roster : d.roster.Sound
  lists : ∀ client file, file ∈ d.roster.filesOf client ↔
    ∃ set ∈ d.catalog.sets, ∃ cycle ∈ set.cycles, cycle.file = file ∧ 0 < cycle.held client

variable {d d' : Directory}

theorem Bookkept.of_cycle? {file : FileId} {cycle : FileCycle} (h : d.Bookkept)
    (hd : d.catalog.Indexed) (hcycle : d.catalog.cycle? file = some cycle) : cycle.Bookkept := by
  obtain ⟨set, hset, hin, -⟩ := (cycle?_eq_some_iff hd).1 hcycle
  exact h.cycles set hset cycle hin

theorem heldOf_pos_iff {c : Catalog} (hc : c.Indexed) {client : Client} {file : FileId} :
    0 < heldOf (c.cycle? file) client ↔
      ∃ set ∈ c.sets, ∃ cycle ∈ set.cycles, cycle.file = file ∧ 0 < cycle.held client := by
  constructor
  · intro hpos
    cases hcycle : c.cycle? file with
    | none =>
        rw [hcycle] at hpos
        exact absurd hpos (Nat.lt_irrefl 0)
    | some cycle =>
        rw [hcycle] at hpos
        obtain ⟨set, hset, hin, hfile⟩ := (cycle?_eq_some_iff hc).1 hcycle
        exact ⟨set, hset, cycle, hin, hfile, hpos⟩
  · rintro ⟨set, hset, cycle, hin, rfl, hpos⟩
    rw [cycle?_of_mem hc hset hin]
    exact hpos

/-- The roster lists for a client the cycles that it has assigned. -/
theorem Bookkept.mem_filesOf_iff (h : d.Bookkept) (hd : d.catalog.Indexed) {client : Client}
    {file : FileId} : file ∈ d.roster.filesOf client ↔ 0 < heldOf (d.catalog.cycle? file) client :=
  (h.lists client file).trans (heldOf_pos_iff hd).symm

/-- **Every operation keeps the account.** -/
theorem Performed.bookkept {call : Call} {r : Request} (h : Performed call r d d')
    (hindexed : d.catalog.Indexed) (hd : d.Bookkept) : d'.Bookkept := by
  have hindexed' := h.indexed hindexed
  cases h with
  | refused => exact hd
  | performed change hasked =>
      have hturns := hasked.turns hindexed
      have hbefore : ∀ file, ∀ cycle ∈ d.catalog.cycle? file, cycle.Bookkept := fun file cycle hcycle =>
        hd.of_cycle? hindexed hcycle
      rw [catalog_perform_ok] at hindexed'
      constructor
      case cycles =>
        rw [catalog_perform_ok]
        intro set hset cycle hcycle
        exact (hturns cycle.file).bookkept (hbefore cycle.file) cycle
          (cycle?_of_mem hindexed' hset hcycle)
      case roster =>
        rw [roster_perform_ok]
        exact hd.roster.noteAll change.notes
      case lists =>
        intro client file
        rw [roster_perform_ok, catalog_perform_ok, Roster.mem_filesOf_about hd.roster,
          ← heldOf_pos_iff hindexed']
        refine (hturns file).lists hd.roster ?_ (fun c => hd.mem_filesOf_iff hindexed) client
        intro cycle hcycle
        exact ⟨(hbefore file cycle hcycle).toTallied, file_of_cycle? hindexed hcycle⟩

/-- A directory without assignments, each of whose cycles has its books in order. -/
theorem bookkept_of_unassigned (hroster : d.roster = {})
    (hcycles : ∀ set ∈ d.catalog.sets, ∀ cycle ∈ set.cycles, cycle.Bookkept ∧ cycle.holders = []) :
    d.Bookkept where
  cycles := fun set hset cycle hcycle => (hcycles set hset cycle hcycle).1
  roster := hroster ▸ Roster.sound_empty
  lists := by
    intro client file
    rw [hroster]
    refine iff_of_false List.not_mem_nil ?_
    rintro ⟨set, hset, cycle, hcycle, -, hpos⟩
    rw [FileCycle.held, (hcycles set hset cycle hcycle).2] at hpos
    exact absurd hpos (Nat.lt_irrefl 0)

theorem Made.bookkept {config : Configuration} (h : Made config d) : d.Bookkept := by
  have hsets : d.catalog.sets = [] := by
    rw [h.catalog_eq]
    rfl
  refine bookkept_of_unassigned ?_ ?_
  · rcases h with rfl | ⟨device, hformat⟩
    · rfl
    · obtain ⟨device', rfl, -⟩ := format_eq_ok hformat
      rfl
  · rw [hsets]
    intro set hset
    cases hset

theorem Recovered.bookkept {config : Configuration} (h : Recovered config d) : d.Bookkept := by
  obtain ⟨device, device', hrecover⟩ := h
  obtain ⟨found, r, t, staging, hread, hbuild, -, -, rfl⟩ := recover_eq_ok hrecover
  exact bookkept_of_unassigned rfl (Recovery.bookkept_rebuild hread hbuild)

/-- The account is kept in every state, and cycles are told apart. -/
theorem Reached.books {config : Configuration}
    (h : Reached (fun d => Made config d ∨ Recovered config d) d) :
    d.catalog.Indexed ∧ d.Bookkept := by
  refine h.performed_induction ?_ ?_
  · rintro d (hmade | hrecovered)
    · rw [hmade.catalog_eq]
      exact ⟨indexed_empty config, hmade.bookkept⟩
    · exact ⟨hrecovered.indexed, hrecovered.bookkept⟩
  · intro call r d d' hindexed hd hperformed
    exact hperformed.bookkept hindexed hd

/-- **The assignments are kept account of in every state** of a directory that was made empty or
recovered from any image: the item of each cycle counts what its holders have, the roster lists each
client's cycles, and creator, holders and flags are those that the state of the cycle demands. -/
theorem bookkept_of_reached {config : Configuration}
    (h : Reached (fun d => Made config d ∨ Recovered config d) d) : d.Bookkept :=
  h.books.2

theorem bookkept_of_reached_doomed :
    doomed.roster.filesOf ⟨1, "RUN2", "USER"⟩ = [⟨1⟩] ∧
      (doomed.catalog.cycle? ⟨1⟩).map (fun cycle => cycle.item.assigned) = some 2 ∧ doomed.Bookkept :=
  ⟨by decide +kernel, by decide +kernel,
    bookkept_of_reached (reached_doomed (Or.inl (Or.inl rfl)))⟩

end Directory

end FileDirectory
