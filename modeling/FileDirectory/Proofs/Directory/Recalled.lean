/-
**Dropped cycles stay dropped, but for records left over.**

An operation that fails to write may leave its file set on the medium other than it is in memory.  The
next operation on the set writes all its records again, so that after one that returned as it should
every cycle of the set is on the medium.  What a write failed to clear, however, is never cleared
again: it is left over, and recovery finds it.  So where the last operation on each file set returned
as it should, recovery makes of the medium what the catalog says and what is left over adds to it:
a dropped cycle comes back exactly if its identity record could not be cleared.

Main definitions:

* `FileDirectory.Directory.deeds` — the operations of a history, and whether they returned as they
  should;
* `FileDirectory.Directory.Recalls` — what recovery makes of the medium of a directory.

Main results:

* `FileDirectory.Directory.Followed.perform` — an operation that returns as it should leaves its file
  set on the medium, and the others as they are;
* `FileDirectory.Directory.recalls_after` — what recovery makes of the medium after every history whose
  last operation on each file set returned as it should.
-/

import FileDirectory.Proofs.Directory.Admitted
import FileDirectory.Proofs.Directory.Reached
import FileDirectory.Proofs.Directory.Sectors
import FileDirectory.Proofs.Recovery.Leftover
import FileDirectory.Proofs.Store.Spared

set_option autoImplicit false

namespace FileDirectory

open Catalog Recovery Store

namespace Directory

/-- The catalog can be recorded after every history, in any pattern of failing attempts at writing. -/
theorem fit_after {config : Configuration} (hconfig : config.defaultMaxRange < 2 ^ 18)
    {device : Device} {d : Directory} (hformat : format config device = .ok d)
    (history : List (Call × Request)) : (d.after history).catalog.Fit config := by
  obtain ⟨device', rfl, -⟩ := format_eq_ok hformat
  refine (after_induction (P := fun d => d.catalog.Fit config) ?_ (indexed_empty config)
    ⟨rfl, rfl, recordable_empty config, partitioned_empty config⟩ history).1
  intro call e e' trouble hindexed hfit hop
  obtain ⟨set, space, last, hstep, heq⟩ := hop.step
  rw [heq]
  exact hstep.fit hconfig hfit hindexed

/-! ### The last operation on a file set -/

/-- The file set that an operation was on, and whether it returned as it should; an operation that the
catalog refuses is on none. -/
def deed {α : Type} (d : Directory) (outcome : Except Failure (Change α)) : List (SetName × Bool) :=
  match outcome with
  | .error _ => []
  | .ok change => [(change.touched, (d.perform (.ok change)).1.isOk)]

/-- The operations of a history in their order: the file set that each was on, and whether it returned
as it should. -/
def deeds (d : Directory) : List (Call × Request) → List (SetName × Bool)
  | [] => []
  | (call, r) :: history => d.trace deed call r ++ (d.handle call r).2.deeds history

theorem deeds_append (d : Directory) (earlier later : List (Call × Request)) :
    d.deeds (earlier ++ later) = d.deeds earlier ++ (d.after earlier).deeds later := by
  induction earlier generalizing d with
  | nil => rfl
  | cons request earlier ih =>
      rw [List.cons_append, deeds, deeds, ih, List.append_assoc, after_cons]

/-- Whether an operation returned as it should, going by the outline of the store. -/
theorem Outlined.trace_deed {d : Directory} {o : Store.Outline} (h : d.Outlined o) {call : Call}
    (r : Request) (hr : r ≠ .releaseAll) : d.trace deed call r =
      (d.trace changed call r).map fun change =>
        (change.1, (o.record change.1 change.2).2.isNone) := by
  cases hquery : r.isQuery with
  | true => rw [trace_of_isQuery deed _ _ hquery, trace_of_isQuery changed _ _ hquery, List.map_nil]
  | false =>
      obtain ⟨α, outcome, reply, hsteps, hoperation⟩ := exists_operation d.catalog call hr hquery
      rw [(hoperation d rfl).2 deed, (hoperation d rfl).2 changed]
      cases outcome with
      | error f => rfl
      | ok change =>
          rw [deed, (h.perform_ok (hsteps h.indexed change rfl)).2, changed, List.map_singleton]
          dsimp only
          cases (o.record change.touched (change.catalog.find? change.touched)).2 <;> rfl

/-- The last operation on the file set of a name returned as it should. -/
def WentWell (deeds : List (SetName × Bool)) (name : SetName) : Prop :=
  deeds.reverse.lookup name = some true

theorem wentWell_append {deeds : List (SetName × Bool)} {touched name : SetName} {ok : Bool} :
    WentWell (deeds ++ [(touched, ok)]) name ↔
      (name = touched ∧ ok = true) ∨ (name ≠ touched ∧ WentWell deeds name) := by
  unfold WentWell
  rw [List.reverse_append, List.reverse_singleton, List.singleton_append, List.lookup_cons]
  by_cases hname : name = touched
  · simp [hname]
  · have hne : (name == touched) = false := by simpa using hname
    simp [hname, hne]

theorem exists_of_isOk {ε α : Type} {x : Except ε α} (h : x.isOk = true) : ∃ a, x = .ok a := by
  cases x with
  | ok a => exact ⟨a, rfl⟩
  | error e => cases h

/-- The sectors of the file sets are told apart, and the cycles of each set whose last operation
returned as it should are on the medium. -/
structure Followed (d : Directory) (deeds : List (SetName × Bool)) : Prop where
  indexed : d.catalog.Indexed
  recorded : ∃ store, d.store = some store ∧ store.Keeps d.catalog ∧
    ∀ set ∈ d.catalog.sets, WentWell deeds set.name → ∀ c ∈ set.cycles, store.Recorded set c

variable {d : Directory} {call : Call} {earlier : List (SetName × Bool)}

/-- **An operation that returns as it should leaves the cycles of its file set on the medium**, and
every operation leaves those of the other sets there. -/
theorem Followed.perform (h : d.Followed earlier) {α : Type} (outcome : Except Failure (Change α))
    (hsteps : ∀ change, outcome = .ok change → change.Steps call d.catalog) :
    (d.perform outcome).2.Followed (earlier ++ d.deed outcome) := by
  cases outcome with
  | error f =>
      rw [deed, List.append_nil]
      exact h
  | ok change =>
      obtain ⟨hindexed, store, hstore, hkeeps, hrecorded⟩ := h
      have hchange := hsteps change rfl
      have hindexed' := hchange.indexed hindexed
      refine ⟨?_, _, store_perform_ok hstore change, ?_, ?_⟩
      · rw [catalog_perform_ok]
        exact hindexed'
      · rw [catalog_perform_ok]
        exact hchange.keeps hindexed hkeeps
      · rw [catalog_perform_ok]
        intro set hset hwell
        rw [deed, wentWell_append] at hwell
        refine hkeeps.recorded_record hindexed hindexed' hset ?_ ?_
        · intro hname
          obtain ⟨answer, hanswer⟩ := exists_of_isOk (hwell.resolve_right fun h => h.1 hname).2
          exact trouble_of_perform hstore hanswer
        · intro hne
          exact hrecorded set ((hchange.mem_sets_iff hindexed hne).1 hset)
            (hwell.resolve_left fun h => hne h.1).2

/-- So does every history. -/
theorem Followed.after (h : d.Followed earlier) (history : List (Call × Request)) :
    (d.after history).Followed (earlier ++ d.deeds history) := by
  induction history generalizing d earlier with
  | nil => simpa [deeds] using h
  | cons request history ih =>
      obtain ⟨call, r⟩ := request
      rw [deeds, ← List.append_assoc]
      refine ih (trace_induction (P := fun e done => e.Followed (earlier ++ done)) deed ?_ ?_ r)
      · intro α e done outcome hsteps he
        rw [← List.append_assoc]
        exact he.perform outcome (hsteps he.indexed)
      · rwa [List.append_nil]

theorem followed_format {config : Configuration} {device : Device}
    (h : format config device = .ok d) : d.Followed [] := by
  obtain ⟨device', rfl, -⟩ := format_eq_ok h
  exact ⟨indexed_empty config, _, rfl, keeps_format config device',
    fun _ hset => absurd hset List.not_mem_nil⟩

/-! ### What recovery makes of the medium -/

/-- What recovery makes of the medium of a directory, going by what is left over there. -/
structure Recalls (config : Configuration) (c : Catalog) (s : Store)
    (failures : List WriteFailure) : Prop where
  /-- What is left over is in sectors that writes failed to clear. -/
  left : ∀ f ∈ s.leftovers, ∃ failure ∈ failures,
    failure.write = { sector := f.sector, content := Sector.zero }
  /-- Where nothing is left over, the image is accepted exactly if no cycle has more than 448 extents. -/
  accepts : s.leftovers = [] → ((∃ e, (recover config s.device.copy).1 = .ok e) ↔
    ∀ set ∈ c.sets, ∀ d ∈ set.cycles, d.item.table.extents.length ≤ 448)
  /-- Where it is accepted, the live cycles are recovered, those whose identity records are left over,
  and no others. -/
  cycles : ∀ e, (recover config s.device.copy).1 = .ok e → ∀ key,
    (∃ set ∈ e.catalog.sets, ∃ d ∈ set.cycles, d.item.key = key) ↔
      (∃ set ∈ c.sets, ∃ d ∈ set.cycles, d.item.key = key ∧ d.item.state = .live) ∨
        ∃ f ∈ s.leftovers, f.record.liveKey? = some key

end Directory

namespace Store

variable {config : Configuration} {c : Catalog} {s : Store}

/-- What is left over is where a write failed to clear a sector: other sectors without an owner are
clear. -/
theorem Vacated.left {failures : List WriteFailure} (h : s.Vacated failures)
    (hlength : s.inUse.length = s.device.sectorCount) :
    ∀ f ∈ s.leftovers, ∃ failure ∈ failures,
      failure.write = { sector := f.sector, content := Sector.zero } := by
  intro f hf
  obtain ⟨hledger, hout⟩ := mem_leftovers.1 hf
  obtain ⟨hrange, hat⟩ := mem_filterMap_foundAt.1 hledger
  have hlt : f.sector < s.inUse.length := by
    rw [hlength]
    exact List.mem_range.1 hrange
  cases hused : s.inUse[f.sector] with
  | true => exact h.spoiled f.sector (List.getElem?_eq_some_iff.2 ⟨hlt, hused⟩) hout
  | false =>
      have hclear := h.clear f.sector (List.getElem?_eq_some_iff.2 ⟨hlt, hused⟩)
      rw [← Device.read_copy] at hclear
      rw [foundAt_of_read hclear Record.ofSector_zero] at hat
      cases hat

/-- **Where nothing is left over, an image that reflects a catalog is accepted** exactly if no cycle
has more than 448 extents. -/
theorem Reflects.accepts_iff (h : s.Reflects c) (hc : c.Indexed) (hfit : c.Fit config)
    (hreadable : ∀ sector < s.device.sectorCount, Readable s.device.copy sector)
    (hnone : s.leftovers = []) :
    (∃ e, (Directory.recover config s.device.copy).1 = .ok e) ↔ ∀ set ∈ c.sets, set.Numbered := by
  have hcarries : s.trusting.Carries (s.shownCatalog c) := h.upToDate.carries hreadable hnone
  have hpartitioned := partitioned_shownCatalog (s := s) hfit.partitioned
  have hattributable : ∀ set ∈ (s.shownCatalog c).sets, set.Attributable :=
    List.forall_mem_map.2 fun set hset => attributable_shownSet (hfit.attributable set hset)
  have hrebuilt : (s.shownCatalog c).rebuilt.left = (s.shownCatalog c).left :=
    congrArg Catalog.left (Catalog.rebuilt_eq
      fun set hset d hd => (hpartitioned.tables set hset d hd).canonical)
  have hnumbered : (∀ set ∈ (s.shownCatalog c).sets, set.Numbered) ↔
      ∀ set ∈ c.sets, set.Numbered :=
    List.forall_mem_map.trans (forall₂_congr fun _ _ => numbered_shownSet)
  have hrecover : ∀ catalog,
      (∃ e, (Directory.recover config s.device.copy).1 = .ok e ∧ e.catalog = catalog) ↔
        (∀ set ∈ c.sets, set.Numbered) ∧
          restart config (s.shownCatalog c).left = .ok catalog := by
    intro catalog
    rw [← hnumbered, ← hrebuilt]
    exact hcarries.recover_iff (indexed_shownCatalog hc) hattributable
      fun set hset d hd e he => hpartitioned.stored_extent hset hd he
  constructor
  · rintro ⟨e, he⟩
    exact ((hrecover e.catalog).1 ⟨e, he, rfl⟩).1
  · intro hall
    obtain ⟨catalog, hrestart, -⟩ := restart_left hpartitioned hfit.capacity
    obtain ⟨e, he, -⟩ := (hrecover catalog).2 ⟨hall, hrestart⟩
    exact ⟨e, he⟩

/-- **What is recovered of an image that reflects a catalog** are its live cycles, and those whose
identity records are left over. -/
theorem Reflects.recovered_iff (h : s.Reflects c) (hc : c.Indexed) (hfit : c.Fit config)
    (hreadable : ∀ sector < s.device.sectorCount, Readable s.device.copy sector) {e : Directory}
    (he : (Directory.recover config s.device.copy).1 = .ok e) (key : CycleKey) :
    (∃ set ∈ e.catalog.sets, ∃ d ∈ set.cycles, d.item.key = key) ↔
      (∃ set ∈ c.sets, ∃ d ∈ set.cycles, d.item.key = key ∧ d.item.state = .live) ∨
        ∃ f ∈ s.leftovers, f.record.liveKey? = some key := by
  obtain ⟨hcoherent, hrestart⟩ := (recover_iff config (Device.healthy_copy _)
    (holds_ledger hreadable)).1 ⟨e, he, rfl⟩
  rw [exists_key_iff hcoherent.complete hrestart, ← h.exists_live_iff hc hfit.attributable]
  constructor
  · rintro ⟨⟨item, sector⟩, hmain, rfl, hlive⟩
    exact ⟨_, mem_mains.1 hmain, Record.liveKey?_eq_some.2 ⟨item, rfl, rfl, hlive⟩⟩
  · rintro ⟨⟨sector, record⟩, hf, hlive⟩
    obtain ⟨item, rfl, hkey, hlive⟩ := Record.liveKey?_eq_some.1 hlive
    exact ⟨⟨item, sector⟩, mem_mains.2 hf, hkey, hlive⟩

end Store

namespace Directory

/-- **Dropped cycles stay dropped, but for records left over.**  After every history of a directory that
was set up whose last operation on each file set that there is returned as it should, in any pattern of
failing attempts at writing, recovery makes of the medium what the catalog says and what is left over
adds to it. -/
theorem recalls_after {config : Configuration} (hrange : config.defaultMaxRange < 2 ^ 18)
    {device : Device} {d : Directory} (hformat : format config device = .ok d)
    {history : List (Call × Request)}
    (hwell : ∀ set ∈ (d.after history).catalog.sets, WentWell (d.deeds history) set.name) :
    ∃ store, (d.after history).store = some store ∧
      Recalls config (d.after history).catalog store (d.failures history) := by
  have hfollowed := (followed_format hformat).after history
  have haccounted := (accounted_format hformat).after history
  rw [List.nil_append] at hfollowed haccounted
  obtain ⟨hindexed, store, hstore, hkeeps, hrecorded⟩ := hfollowed
  obtain ⟨-, accounted, haccount, -, hvacated⟩ := haccounted
  obtain ⟨-, legible, hlegible, -, hreadable⟩ := legible_after hformat history
  obtain rfl : accounted = store := Option.some.inj (haccount.symm.trans hstore)
  obtain rfl : legible = accounted := Option.some.inj (hlegible.symm.trans hstore)
  have hfit := fit_after hrange hformat history
  have hreflects : legible.Reflects (d.after history).catalog :=
    ⟨hkeeps, fun set hset => hrecorded set hset (hwell set hset)⟩
  exact ⟨legible, hstore, {
    left := hvacated.left hkeeps.length_inUse
    accepts := hreflects.accepts_iff hindexed hfit hreadable
    cycles := fun e he => hreflects.recovered_iff hindexed hfit hreadable he }⟩

/-- Two cycles of a disk file are created, and the first is deleted again, before the file set is
guarded. -/
def dropping : List (Call × Request) := [
    (⟨⟨1, "RUN1", "USER"⟩, 5, none⟩, .createDisk ⟨"Q", "D", .absolute 1, .track, 3, 10⟩),
    (⟨⟨1, "RUN1", "USER"⟩, 6, none⟩, .release ⟨1⟩),
    (⟨⟨1, "RUN1", "USER"⟩, 7, none⟩, .createDisk ⟨"Q", "D", .absolute 2, .track, 3, 10⟩),
    (⟨⟨1, "RUN1", "USER"⟩, 8, none⟩, .delete "Q" "D" (.absolute 1) "")]

/-- The call that guards it. -/
def guarding : Call × Request := (⟨⟨1, "RUN1", "USER"⟩, 9, none⟩, .setGuard "Q" "D" true "")

/-- A device of eight sectors that fails while the first cycle is deleted, and works before and after. -/
def fitful : Device :=
  { medium := .ofSectorCount 8, failsWrite := fun attempt _ => 23 ≤ attempt ∧ attempt < 30 }

/-- **A dropped cycle comes back**: the sectors of its records could not be cleared, and that the next
operation on the file set returns as it should does not make up for it. -/
theorem recalls_after_dropping :
    ∃ d, format {} fitful = .ok d ∧
      (∀ set ∈ (d.after (dropping ++ [guarding])).catalog.sets,
        WentWell (d.deeds (dropping ++ [guarding])) set.name) ∧
      ∃ store, (d.after (dropping ++ [guarding])).store = some store ∧
        Recalls {} (d.after (dropping ++ [guarding])).catalog store
          (d.failures (dropping ++ [guarding])) ∧
        ∃ e, (recover {} store.device.copy).1 = .ok e ∧
          (∃ set ∈ e.catalog.sets, ∃ c ∈ set.cycles, c.item.key = ⟨⟨"Q", "D"⟩, 1⟩) ∧
          ∀ set ∈ (d.after (dropping ++ [guarding])).catalog.sets, ∀ c ∈ set.cycles,
            c.item.key ≠ ⟨⟨"Q", "D"⟩, 1⟩ := by
  obtain ⟨d, hformat, hafter⟩ := outlined_after {} fitful rfl rfl (by
    intro attempt hlt sector
    have hcount : fitful.sectorCount = 8 := by decide +kernel
    exact decide_eq_false (by omega))
  have halike := alike_format hformat
  have hcatalog : (d.after (dropping ++ [guarding])).catalog =
      ((empty {}).after (dropping ++ [guarding])).catalog := (halike.after _).catalog
  have hwell : ∀ set ∈ (d.after (dropping ++ [guarding])).catalog.sets,
      WentWell (d.deeds (dropping ++ [guarding])) set.name := by
    have hguarded : (d.after dropping).deeds [guarding] = [(⟨"Q", "D"⟩, true)] := by
      show (d.after dropping).trace deed guarding.1 guarding.2 ++ [] = _
      rw [(hafter dropping).trace_deed guarding.2 nofun, (halike.after dropping).trace_changed]
      decide +kernel
    have hnames : ∀ set ∈ ((empty {}).after (dropping ++ [guarding])).catalog.sets,
        set.name = ⟨"Q", "D"⟩ := by decide +kernel
    intro set hset
    rw [deeds_append, hguarded]
    exact wentWell_append.2 (.inl ⟨hnames set (hcatalog ▸ hset), rfl⟩)
  obtain ⟨store, hstore, hrecalls⟩ := recalls_after (by decide) hformat hwell
  refine ⟨d, hformat, hwell, store, hstore, hrecalls, ?_⟩
  obtain ⟨recorded, e, hrecorded, he, hkeys⟩ := (hafter (dropping ++ [guarding])).exists_recovered {}
    (legible_after hformat _)
    [.lead ⟨"Q", "D"⟩, .main ⟨⟨"Q", "D"⟩, 1⟩, .backup ⟨⟨"Q", "D"⟩, 1⟩,
      .allocation ⟨⟨"Q", "D"⟩, 1⟩ 0, .main ⟨⟨"Q", "D"⟩, 2⟩, .backup ⟨⟨"Q", "D"⟩, 2⟩,
      .allocation ⟨⟨"Q", "D"⟩, 2⟩ 0]
    (by decide +kernel) (by decide) (by simp) (by grind) (by decide +kernel) (by decide +kernel)
  obtain rfl : recorded = store := Option.some.inj (hrecorded.symm.trans hstore)
  refine ⟨e, he, (hkeys _).2 (by decide +kernel), ?_⟩
  rw [hcatalog]
  decide +kernel

end Directory

end FileDirectory
