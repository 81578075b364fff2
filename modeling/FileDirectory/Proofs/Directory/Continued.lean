/-
**A directory goes on from its own image.**

A directory that has met no failure is mirrored by its medium.  What is recovered from a copy of the
image has met no failure either: its items fit into their records, the pack is divided among its
cycles and the free space, and the medium mirrors it.  So a directory may be stopped and recovered as
often as one likes, and what holds without failures goes on to hold.

Main definitions:

* `FileDirectory.Directory.Unfailing` — a directory that has met no failure since it was set up, how
  often it was recovered from its own image.

Main results:

* `FileDirectory.Directory.Mirrored.exists_recovered_iff` — the recovered cycles;
* `FileDirectory.Directory.Mirrored.recovered` — what is recovered from the image of a directory that
  has met no failure has met none;
* `FileDirectory.Directory.Unfailing.mirrored`, `FileDirectory.Directory.Unfailing.reached` — what is
  known of such a directory.
-/

import FileDirectory.Proofs.Directory.Reached
import FileDirectory.Proofs.Directory.Resumed
import FileDirectory.Proofs.Recovery.Settled

set_option autoImplicit false

namespace FileDirectory

open Recovery

/-! ### What is left of what fits -/

/-- What is left of a main item that fits fits. -/
theorem MainItem.Fits.left {m : MainItem} (h : m.Fits) : m.left.Fits := by
  have hword : 0 < 2 ^ 36 := Nat.two_pow_pos 36
  have hhalf : 0 < 2 ^ 18 := Nat.two_pow_pos 18
  constructor
  case key =>
    rw [m.key_left, h.key, h.key]
  case state => exact rfl
  case projectId =>
    exact Fieldata.stored_stored _ 2
  case accountId =>
    exact Fieldata.stored_stored _ 2
  case assignMnemonic =>
    exact Fieldata.stored_stored _ 1
  case placement => exact Nat.mod_lt _ hhalf
  case cumulativeAssigns => exact Nat.mod_lt _ hword
  case initialGranules => exact Nat.mod_lt _ hword
  case maxGranules => exact Nat.mod_lt _ hword
  case highestGranule => exact Nat.mod_lt _ hword
  case highestTrackWritten => exact Nat.mod_lt _ hword
  case backup =>
    show m.backup.stored.stored = m.backup.stored
    rw [h.backup, h.backup]
  case disable => exact h.disable

/-- A file set of which something is left. -/
theorem Catalog.mem_left {c : Catalog} {r : Remains} (h : r ∈ c.left) : ∃ set ∈ c.sets,
    r.lead = { set.lead with plusOneExists := false } ∧
      r.items = set.liveByNumber.map fun d => d.item.left := by
  obtain ⟨set, hset, hleft⟩ := List.mem_filterMap.1 h
  refine ⟨set, hset, ?_⟩
  rw [FileSet.left] at hleft
  dsimp only at hleft
  split at hleft
  · cases hleft
  · cases hleft
    exact ⟨rfl, rfl⟩

/-- What is left are the live cycles. -/
theorem Catalog.exists_left_iff {c : Catalog} {m : MainItem} :
    (∃ r ∈ c.left, m ∈ r.items) ↔
      ∃ set ∈ c.sets, ∃ d ∈ set.cycles, d.item.state = .live ∧ m = d.item.left := by
  constructor
  · rintro ⟨r, hr, hm⟩
    obtain ⟨set, hset, -, hitems⟩ := mem_left hr
    rw [hitems] at hm
    obtain ⟨d, hd, rfl⟩ := List.mem_map.1 hm
    obtain ⟨hin, hlive⟩ := List.mem_filter.1 hd
    exact ⟨set, hset, d, Store.mem_byNumber.1 hin, of_decide_eq_true hlive, rfl⟩
  · rintro ⟨set, hset, d, hd, hlive, rfl⟩
    have hin : d.item.left ∈ set.liveByNumber.map fun d => d.item.left :=
      List.mem_map_of_mem (List.mem_filter.2 ⟨Store.mem_byNumber.2 hd, decide_eq_true hlive⟩)
    exact ⟨_, List.mem_filterMap.2 ⟨set, hset, if_neg (List.ne_nil_of_mem hin)⟩, hin⟩

namespace Directory

/-! ### Recovering from one's own image -/

section Image

variable {config : Configuration} {d e : Directory} {store : Store} {device : Device}

/-- **The recovered cycles** are the live cycles, after a stop. -/
theorem Mirrored.exists_recovered_iff (hd : Mirrored config d) (hmirrors : store.Mirrors d.catalog)
    (h : (recover config store.device.copy).1 = .ok e) {m : MainItem} :
    (∃ cycle ∈ e.catalog.cycles, cycle.item = m) ↔
      ∃ cycle ∈ d.catalog.cycles, cycle.item.state = .live ∧ m = cycle.item.left := by
  obtain ⟨-, hrestart⟩ := (hd.recover_iff hmirrors).1 ⟨e, h, rfl⟩
  have hrecovered : (∃ set ∈ e.catalog.sets, ∃ cycle ∈ set.cycles, cycle.item = m) ↔
      ∃ r ∈ d.catalog.left, m ∈ r.items := by
    have hlead : ∀ lead, (∃ set ∈ e.catalog.sets, set.lead = lead ∧
        ∃ cycle ∈ set.cycles, cycle.item = m) ↔
          ∃ r ∈ d.catalog.left, r.lead = lead ∧ m ∈ r.items := fun _ => exists_cycle_iff hrestart
    simpa using exists_congr hlead
  have hleft := hrecovered.trans Catalog.exists_left_iff
  constructor
  · rintro ⟨cycle, hcycle, hitem⟩
    obtain ⟨set, hset, hin⟩ := List.mem_flatMap.1 hcycle
    obtain ⟨old, hold, before, hbefore, hlive⟩ := hleft.1 ⟨set, hset, cycle, hin, hitem⟩
    exact ⟨before, List.mem_flatMap.2 ⟨old, hold, hbefore⟩, hlive⟩
  · rintro ⟨before, hbefore, hlive⟩
    obtain ⟨old, hold, hin⟩ := List.mem_flatMap.1 hbefore
    obtain ⟨set, hset, cycle, hcycle, hitem⟩ := hleft.2 ⟨old, hold, before, hin, hlive⟩
    exact ⟨cycle, List.mem_flatMap.2 ⟨set, hset, hcycle⟩, hitem⟩

/-- The catalog that is recovered can be recorded. -/
theorem Mirrored.recordable_recovered (hd : Mirrored config d)
    (hrestart : restart config d.catalog.left = .ok e.catalog) : e.catalog.Recordable := by
  have hset : ∀ set ∈ e.catalog.sets, ∃ old ∈ d.catalog.sets,
      set.lead = { old.lead with plusOneExists := false } ∧
        set.cycles.map FileCycle.item = old.liveByNumber.map fun cycle => cycle.item.left :=
    fun set hset => Catalog.mem_left (mem_remains_of_restart hrestart hset)
  have hlive : ∀ old : FileSet, ∀ cycle ∈ old.liveByNumber, cycle ∈ old.cycles :=
    fun old cycle hcycle => Store.mem_byNumber.1 (List.mem_filter.1 hcycle).1
  constructor
  case leads =>
    intro set hin
    obtain ⟨old, hold, hlead, -⟩ := hset set hin
    have hfits := hd.recordable.leads old hold
    rw [hlead]
    exact hfits.congr rfl rfl rfl rfl rfl hfits.highest
  case items =>
    intro set hin cycle hcycle
    obtain ⟨old, hold, -, hitems⟩ := hset set hin
    have hitem : cycle.item ∈ set.cycles.map FileCycle.item := List.mem_map_of_mem hcycle
    rw [hitems] at hitem
    obtain ⟨before, hbefore, heq⟩ := List.mem_map.1 hitem
    exact heq ▸ (hd.recordable.items old hold before (hlive old before hbefore)).left
  case keys =>
    intro set hin
    obtain ⟨old, hold, -, hitems⟩ := hset set hin
    have hkeys : (set.cycles.map fun cycle => cycle.item.key) =
        old.liveByNumber.map fun cycle => cycle.item.key := by
      have hmap := congrArg (List.map MainItem.key) hitems
      rw [List.map_map, List.map_map] at hmap
      refine hmap.trans (List.map_congr_left fun cycle hcycle => ?_)
      rw [Function.comp_apply, MainItem.key_left,
        (hd.recordable.items old hold cycle (hlive old cycle hcycle)).key]
    rw [hkeys]
    refine (List.filter_sublist.map _).nodup ?_
    exact ((List.mergeSort_perm old.cycles _).map _).nodup_iff.2 (hd.recordable.keys old hold)

/-- The tables that are recovered are those of the live cycles. -/
theorem Mirrored.fits_recovered (hd : Mirrored config d)
    (hrestart : restart config d.catalog.left = .ok e.catalog) :
    ∀ set ∈ e.catalog.sets, ∀ cycle ∈ set.cycles, cycle.item.table.Fits := by
  intro set hset cycle hcycle
  obtain ⟨old, hold, before, hbefore, -, heq⟩ := Catalog.exists_left_iff.1
    ⟨_, mem_remains_of_restart hrestart hset, List.mem_map_of_mem hcycle⟩
  rw [heq, MainItem.table_left]
  exact hd.partitioned.tables old hold before hbefore

/-- A sector of the image that holds no record is clear. -/
theorem Mirrored.clear_of_read (hd : Mirrored config d) (hmirrors : store.Mirrors d.catalog)
    {found : List Found} (hread : Recovery.read store.device.copy = .ok found) :
    ∀ sector < store.device.copy.sectorCount, sector ∉ found.map Found.sector →
      store.device.copy.medium.read sector = .ok Sector.zero := by
  have hcarries := hmirrors.carries hd.recordable
  have hholds := hcarries.holds hd.indexed
  obtain ⟨-, rfl⟩ := hholds.read_iff.1 hread
  intro sector hlt hout
  refine hmirrors.clear sector hlt fun howned => hout ?_
  exact ((hholds.perm_found.map Found.sector).trans
    (hcarries.upToDate.perm_sectors hd.indexed)).mem_iff.2 howned

/-- **What is recovered from the image of a directory that has met no failure** has met none. -/
theorem Mirrored.recovered (hd : Mirrored config d) (hmirrors : store.Mirrors d.catalog)
    (h : recover config store.device.copy = (.ok e, device)) : Mirrored config e := by
  obtain ⟨-, hrestart⟩ := (hd.recover_iff hmirrors).1 ⟨e, congrArg Prod.fst h, rfl⟩
  have hrecordable := hd.recordable_recovered hrestart
  have htables := hd.fits_recovered hrestart
  obtain ⟨found, r, t, staging, hread, hbuild, hstage, hreport, rfl⟩ := recover_eq_ok h
  obtain ⟨hfailures, hshortages⟩ := Store.report_eq_none.1 hreport
  obtain ⟨hdivided, hconfig, hcapacity⟩ := divided_rebuild hread hbuild
  exact {
    indexed := indexed_rebuild (distinct_of_read hread) hbuild
    config_eq := hconfig
    capacity := hcapacity
    recordable := hrecordable
    partitioned := ⟨hdivided.sound, hcapacity ▸ Nat.min_le_right _ _, htables, hdivided.perm⟩
    mirrors := ⟨_, rfl, mirrors_rewrite hread hbuild hstage hshortages hfailures
      (hd.clear_of_read hmirrors hread)⟩ }

end Image

/-! ### Going on -/

/-- The directory was set up on a medium, and has gone on since by histories without an error of the
medium, and by being recovered from copies of its own image. -/
inductive Unfailing (config : Configuration) : Directory → Prop
  | format {device : Device} {d : Directory} (h : format config device = .ok d) : Unfailing config d
  | after {d : Directory} (h : Unfailing config d) {history : List (Call × Request)}
      (hquiet : d.Quiet history) (htold : d.Told history) : Unfailing config (d.after history)
  | recover {d e : Directory} (h : Unfailing config d) {store : Store} (hstore : d.store = some store)
      (hrecover : (recover config store.device.copy).1 = .ok e) : Unfailing config e

namespace Unfailing

variable {config : Configuration} {d : Directory}

theorem mirrored (hconfig : config.defaultMaxRange < 2 ^ 18) (h : Unfailing config d) :
    Mirrored config d := by
  induction h with
  | format h => exact mirrored_format h
  | after _ hquiet htold ih => exact ih.after hconfig hquiet htold
  | @recover d e _ store hstore hrecover ih =>
      obtain ⟨store', hstore', hmirrors⟩ := ih.mirrors
      obtain rfl : store = store' := Option.some.inj (hstore.symm.trans hstore')
      exact ih.recovered hmirrors (Prod.ext hrecover rfl)

/-- It is one of the states that directories pass through. -/
theorem reached (h : Unfailing config d) :
    Reached (fun d => Made config d ∨ Recovered config d) d := by
  induction h with
  | format h => exact .start (Or.inl (Or.inr ⟨_, h⟩))
  | after _ _ _ ih => exact reached_after ih _
  | recover _ _ hrecover _ => exact .start (Or.inr ⟨_, _, Prod.ext hrecover rfl⟩)

end Unfailing

end Directory

end FileDirectory
