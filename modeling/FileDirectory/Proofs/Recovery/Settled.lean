/-
**What recovery leaves behind is settled.**

Whatever a medium says, what recovery makes of it reads back as it is: items were read from the words
of a sector, extents lie on the pack, and no cycle has more of them than its allocation records can
hold.  Recovery writes it to the sectors that it was read from, and no other sector is needed.  So the
medium that is left behind carries the recovered catalog, and recovery makes the same catalog of it
once more, but for extents that are merged when the tables are built again.

Main definitions:

* `FileDirectory.FileSet.Settled` — a file set as recovery leaves it.

Main results:

* `FileDirectory.Recovery.restart_rebuilt` — what is left starts again alike, however its extents are
  cut;
* `FileDirectory.Recovery.settled_of_restart` — every recovered set is settled;
* `FileDirectory.Recovery.carries_rewrite`, `FileDirectory.Recovery.mirrors_rewrite` — the medium that
  is left behind carries the catalog, or mirrors it;
* `FileDirectory.Directory.spared_recover` — no sector is needed that held no record;
* `FileDirectory.Directory.recover_recovered` — what recovery leaves behind is recovered alike.
-/

import FileDirectory.Proofs.Record.Stable
import FileDirectory.Proofs.Recovery.Contents
import FileDirectory.Proofs.Recovery.Divided
import FileDirectory.Proofs.Recovery.Mirror

set_option autoImplicit false

namespace FileDirectory

open Recovery

/-! ### Settled file sets -/

/-- A file set as recovery leaves it: its cycles are live and stand by number, and nothing would be lost
by a stop. -/
structure FileSet.Settled (set : FileSet) : Prop where
  lead : set.lead.stored = set.lead
  /-- No cycle is being cataloged. -/
  cataloged : set.lead.plusOneExists = false
  live : ∀ d ∈ set.cycles, d.item.state = .live
  /-- A stop changes no cycle, and each reads back as it is. -/
  left : ∀ d ∈ set.cycles, d.item.left = d.item
  ordered : set.cycles.Pairwise fun a b => compare a.item.key b.item.key = .lt
  numbered : set.Numbered
  /-- Words can number the file tracks that extents start at. -/
  starts : ∀ d ∈ set.cycles, ∀ e ∈ d.item.table.extents, e.fileTrack < 2 ^ 36

namespace FileSet.Settled

variable {set : FileSet}

/-- What is recorded of a settled set can be attributed to it. -/
theorem attributable (h : set.Settled) : set.Attributable where
  lead := h.lead
  key := fun d hd => d.item.key_left.symm.trans (congrArg MainItem.key (h.left d hd))
  state := fun d hd => d.item.state_left.symm.trans (congrArg MainItem.state (h.left d hd))
  keys := nodup_of_pairwise_lt (fun d : FileCycle => d.item.key) h.ordered

theorem byNumber (h : set.Settled) : set.byNumber = set.cycles :=
  mergeSort_eq_of_perm (fun d : FileCycle => d.item.key) (List.Perm.refl _) h.ordered

end FileSet.Settled

theorem MainItem.left_rebuilt (m : MainItem) : m.rebuilt.left = m.left.rebuilt := rfl

namespace Recovery

/-- What is left of a file set once the tables of its cycles have been built again. -/
def Remains.rebuilt (r : Remains) : Remains := { r with items := r.items.map MainItem.rebuilt }

/-- **Nothing of a settled set is lost by a stop.** -/
theorem left_rebuilt_of_settled {set : FileSet} (h : set.Settled) (hne : set.cycles ≠ []) :
    set.rebuilt.left = some (Remains.rebuilt ⟨set.lead, set.cycles.map FileCycle.item⟩) := by
  have hlive : set.rebuilt.byNumber.filter (fun d => d.item.state = .live) = set.rebuilt.cycles := by
    rw [set.byNumber_rebuilt, h.byNumber]
    refine List.filter_eq_self.2 fun d hd => ?_
    obtain ⟨c, hc, rfl⟩ := List.mem_map.1 hd
    exact decide_eq_true (h.live c hc)
  have hitems : set.rebuilt.cycles.map (fun d => d.item.left) =
      (set.cycles.map FileCycle.item).map MainItem.rebuilt := by
    rw [FileSet.rebuilt, List.map_map, List.map_map]
    refine List.map_congr_left fun d hd => ?_
    exact (d.item.left_rebuilt).trans (congrArg MainItem.rebuilt (h.left d hd))
  have hlead : { set.rebuilt.lead with plusOneExists := false } = set.lead := by
    rw [← h.cataloged]
    rfl
  unfold FileSet.left
  rw [hlive, hitems, hlead, if_neg (by simpa using hne)]
  rfl

/-! ### Claiming the tracks again -/

theorem setsFrom_rebuilt (last : Nat) (rs : List Remains) :
    setsFrom last (rs.map Remains.rebuilt) = (setsFrom last rs).map FileSet.rebuilt := by
  have hcycles : ∀ (last : Nat) (items : List MainItem),
      cyclesFrom last (items.map MainItem.rebuilt) =
        (cyclesFrom last items).map FileCycle.rebuilt := by
    intro last items
    induction items generalizing last with
    | nil => rfl
    | cons item items ih => exact congrArg (_ :: ·) (ih (last + 1))
  induction rs generalizing last with
  | nil => rfl
  | cons r rs ih =>
      rw [List.map_cons, setsFrom, setsFrom, List.map_cons, ih]
      simp only [Remains.rebuilt, List.length_map, hcycles, FileSet.rebuilt]

/-- Tables that are built again have the tracks that they had. -/
theorem perm_tracks_rebuilt {rs : List Remains}
    (h : ∀ r ∈ rs, ∀ m ∈ r.items, m.table.Ascending) :
    (tracksIn (rs.flatMap Remains.regions)).Perm
      (tracksIn ((rs.map Remains.rebuilt).flatMap Remains.regions)) := by
  rw [tracksIn_regions, tracksIn_regions, List.flatMap_map]
  have hitems : (rs.flatMap fun r => r.rebuilt.items) =
      (rs.flatMap Remains.items).map MainItem.rebuilt := by
    rw [List.map_flatMap]
    rfl
  rw [hitems, List.flatMap_map]
  refine List.Perm.flatMap_left _ fun m hm => ?_
  obtain ⟨r, hr, hin⟩ := List.mem_flatMap.1 hm
  exact (h r hr m hin).packTracks_rebuilt.symm

/-- **What is left starts again alike once its tables have been built again.** -/
theorem restart_rebuilt {config : Configuration} {rs : List Remains} {c : Catalog}
    (h : restart config rs = .ok c) (hascending : ∀ r ∈ rs, ∀ m ∈ r.items, m.table.Ascending) :
    restart config (rs.map Remains.rebuilt) = .ok c.rebuilt := by
  have hsound : (Catalog.empty config).space.Sound := (FreeSpace.sound_ofCapacity _).1
  obtain ⟨space, hclaim, rfl⟩ := map_eq_ok.1 h
  have hlength : ((rs.map Remains.rebuilt).flatMap Remains.items).length =
      (rs.flatMap Remains.items).length := by
    simp [List.length_flatMap, Remains.rebuilt, Function.comp_def]
  rw [restart, claimAll_congr hsound (perm_tracks_rebuilt hascending) hclaim, hlength,
    setsFrom_rebuilt]
  rfl

/-! ### What is taken over -/

/-- A main item that reads back, with a backup that does, has nothing to lose by another stop. -/
theorem left_afterStop {m : MainItem} (hm : m.stored = m) {backup : BackupInfo}
    (hbackup : backup.stored = backup) (table : ExtentTable) :
    (afterStop { m with backup := backup, table := table }).left =
      afterStop { m with backup := backup, table := table } := by
  have hassigned : m.assigned % 2 ^ 18 = m.assigned := congrArg MainItem.assigned hm
  conv_rhs => rw [← hm]
  simp only [MainItem.left, afterStop, MainItem.stored, hbackup, hassigned]
  simp

section Read

variable {device : Device} {found : List Found} (hread : read device = .ok found)

include hread

theorem stored_of_leads {lead : LeadItem × Nat} (h : lead ∈ leads found) :
    lead.1.stored = lead.1 := by
  obtain ⟨content, -, hrecord⟩ := ofSector_of_read hread (mem_leads.1 h)
  cases Sector.ofSector_eq_ok.1 hrecord with
  | lead hcode hitem => exact LeadItem.stored_of_ofSector hitem

theorem stored_of_mains {main : MainItem × Nat} (h : main ∈ mains found) :
    main.1.stored = main.1 := by
  obtain ⟨content, hitem⟩ := ofSector_of_mains hread h
  exact MainItem.stored_of_ofSector hitem

theorem stored_of_backups {b : CycleKey × BackupInfo × Nat} (h : b ∈ backups found) :
    b.2.1.stored = b.2.1 := by
  obtain ⟨content, -, hrecord⟩ := ofSector_of_read hread (mem_backups.1 h)
  obtain ⟨key, info, sector⟩ := b
  cases Sector.ofSector_eq_ok.1 hrecord with
  | backup hcode => exact BackupInfo.stored_ofSector content

/-- The numbers of allocation records and of the file tracks in them fit where they were read from. -/
theorem lt_of_allocations {a : FoundExtents} (h : a ∈ allocations found) :
    a.sequence < 2 ^ 6 ∧ ∀ e ∈ a.extents, e.fileTrack < 2 ^ 36 := by
  obtain ⟨content, -, hrecord⟩ := ofSector_of_read hread (mem_allocations.1 h)
  obtain ⟨key, sequence, extents, sector⟩ := a
  cases Sector.ofSector_eq_ok.1 hrecord with
  | allocation hcode hcount => exact ⟨content.sequence_lt, fun e he => Sector.fileTrack_lt he⟩

/-- A cycle has at most sixty-four allocation records. -/
theorem length_allocationsOf_le (key : CycleKey) : (allocationsOf found key).length ≤ 2 ^ 6 := by
  have hnodup : ((allocationsOf found key).map FoundExtents.sequence).Nodup :=
    nodup_of_pairwise_lt _ ((distinct_of_read hread).pairwise_allocationsOf key)
  have hsub : (allocationsOf found key).map FoundExtents.sequence ⊆ List.range (2 ^ 6) := by
    intro n hn
    obtain ⟨a, ha, rfl⟩ := List.mem_map.1 hn
    exact List.mem_range.2
      (lt_of_allocations hread (mem_allocations.2 (mem_allocationsOf.1 ha).1)).1
  have hlength := (List.subperm_of_subset hnodup hsub).length_le
  rwa [List.length_map, List.length_range] at hlength

variable {main : MainItem × Nat} (hmain : main ∈ mains found)

include hmain

/-- **A main item that was taken over** has nothing to lose by another stop. -/
theorem left_of_mains (hcomplete : Complete found) :
    (afterStop (completed found main.1)).left = afterStop (completed found main.1) := by
  refine left_afterStop (stored_of_mains hread hmain) ?_ _
  obtain ⟨b, hb, hkey⟩ := hcomplete.backup main hmain
  have hlookup := (lookup_eq_some_iff (distinct_of_read hread).nodup_backups).2 hb
  rw [hkey] at hlookup
  rw [hlookup]
  exact stored_of_backups hread hb

/-- It has no more extents than its allocation records can number. -/
theorem length_of_mains : (completed found main.1).table.extents.length ≤ maxExtents :=
  Nat.le_trans (length_table_le hread hmain)
    (Nat.mul_le_mul_left _ (length_allocationsOf_le hread main.1.key))

/-- Its extents start at file tracks that a word has room for. -/
theorem fileTrack_lt_of_mains :
    ∀ e ∈ (completed found main.1).table.extents, e.fileTrack < 2 ^ 36 := by
  intro e he
  have hstart : e.fileTrack ∈ (completed found main.1).table.starts := List.mem_map_of_mem he
  unfold completed at hstart
  dsimp only at hstart
  rw [(identity_of_mains hread hmain).1] at hstart
  rcases ExtentTable.starts_foldl_insert_subset _ _ _ hstart with hstart | hnone
  · obtain ⟨c, hc, heq⟩ := List.mem_map.1 hstart
    obtain ⟨a, ha, hc⟩ := List.mem_flatMap.1 hc
    rw [← heq]
    exact (lt_of_allocations hread (mem_allocations.2 (mem_allocationsOf.1 ha).1)).2 c hc
  · cases hnone

end Read

/-! ### What is rebuilt is settled -/

section Rebuilding

variable {config : Configuration} {device : Device} {found : List Found} {c : Catalog}

/-- What is left of a file set are live cycles by number. -/
theorem ordered_remains (h : Distinct found) :
    ∀ r ∈ remains found, r.items.Pairwise fun a b => compare a.key b.key = .lt := by
  intro r hr
  obtain ⟨lead, -, hleft⟩ := List.mem_filterMap.1 hr
  rw [remainsOf] at hleft
  split at hleft
  · cases hleft
  · cases hleft
    exact List.pairwise_map.2 (h.pairwise_mains.sublist List.filter_sublist)

/-- **Every recovered set is settled.** -/
theorem settled_of_restart (hread : read device = .ok found) (hcomplete : Complete found)
    (hrestart : restart config (remains found) = .ok c) {set : FileSet} (hset : set ∈ c.sets)
    (hne : set.cycles ≠ []) : set.Settled := by
  have hcycle : ∀ d ∈ set.cycles, ∃ lead ∈ leads found, ∃ main ∈ mains found,
      liveIn lead.1.name main.1 ∧ set.lead = { lead.1 with plusOneExists := false } ∧
        d.item = afterStop (completed found main.1) := fun d hd =>
    exists_mem_remains_iff.1 ((exists_cycle_iff hrestart).1 ⟨set, hset, rfl, d, hd, rfl⟩)
  have hmain : ∀ d ∈ set.cycles, ∃ main ∈ mains found, main.1.state = .live ∧
      d.item = afterStop (completed found main.1) := by
    intro d hd
    obtain ⟨lead, -, main, hmain, hlive, -, hitem⟩ := hcycle d hd
    rw [liveIn, Bool.and_eq_true, decide_eq_true_iff, decide_eq_true_iff] at hlive
    exact ⟨main, hmain, hlive.2, hitem⟩
  -- the lead item is told by any of the cycles
  obtain ⟨d, hd⟩ := List.exists_mem_of_ne_nil _ hne
  obtain ⟨lead, hlead, -, -, -, hsetLead, -⟩ := hcycle d hd
  constructor
  case lead =>
    rw [hsetLead]
    conv_rhs => rw [← stored_of_leads hread hlead]
    rfl
  case cataloged =>
    rw [hsetLead]
  case live =>
    intro d hd
    obtain ⟨main, -, hlive, hitem⟩ := hmain d hd
    rw [hitem]
    exact hlive
  case left =>
    intro d hd
    obtain ⟨main, hin, -, hitem⟩ := hmain d hd
    rw [hitem]
    exact left_of_mains hread hin hcomplete
  case ordered =>
    exact List.pairwise_map.1
      (ordered_remains (distinct_of_read hread) _ (mem_remains_of_restart hrestart hset))
  case numbered =>
    intro d hd
    obtain ⟨main, hin, -, hitem⟩ := hmain d hd
    rw [hitem]
    exact length_of_mains hread hin
  case starts =>
    intro d hd
    obtain ⟨main, hin, -, hitem⟩ := hmain d hd
    rw [hitem]
    exact fileTrack_lt_of_mains hread hin

end Rebuilding

/-! ### What is left behind -/

section Rewriting

variable {config : Configuration} {device : Device} {found : List Found} {r : Rebuilt} {t : Store}
  {staging : Staging} (hread : read device = .ok found) (h : rebuild config found = .ok r)
  (hstage : stageAll (initialStore device found r)
    (Staging.free { inUse := inUse device found } r.cleared) r.catalog.sets = (t, staging))

include hread h hstage

/-- What is left behind in no sector of a file set is vacant, if every sector was that held no record; a
cleared sector is. -/
theorem vacant_rewrite (hfailures : (t.flush staging).2 = []) (Vacant : Sector → Prop)
    (hzero : Vacant Sector.zero)
    (hvacant : ∀ sector < device.sectorCount, sector ∉ found.map Found.sector →
      ∃ content, device.medium.read sector = .ok content ∧ Vacant content) :
    ∀ sector < (t.flush staging).1.device.sectorCount, sector ∉ (t.flush staging).1.owned →
      ∃ content, (t.flush staging).1.device.medium.read sector = .ok content ∧ Vacant content := by
  obtain ⟨hdevice, -⟩ := placed_rewrite hread h hstage
  obtain ⟨freed, writes, haccount⟩ := settled_rewrite hread h hstage
  have hnodup : (found.map Found.sector ++ ([] : List Nat)).Nodup := by
    rw [List.append_nil]
    exact (distinct_of_read hread).sectors
  have hkept := Store.vacant_flush t Vacant hzero hnodup
    (by rw [List.append_nil]; exact inUse_of_read hread) haccount hfailures (by
      rw [List.append_nil, hdevice]
      exact hvacant)
  have hcount : (t.flush staging).1.device.sectorCount = t.device.sectorCount :=
    Store.sectorCount_write t.device staging.writes
  intro sector hlt hout
  rw [hcount] at hlt
  exact hkept sector hlt (by rwa [List.append_nil])

/-- **The medium that is left behind carries the recovered catalog**: what is in no sector of a file
set was free before, or has been cleared. -/
theorem carries_rewrite (hshortages : staging.shortages = [])
    (hfailures : (t.flush staging).2 = []) : (t.flush staging).1.Carries r.catalog := by
  obtain ⟨-, hsuspect, -, -⟩ := placed_rewrite hread h hstage
  refine ⟨keeps_rewrite hread h hstage hshortages hfailures, hsuspect,
    recorded_rewrite hread h hstage hshortages hfailures,
    vacant_rewrite hread h hstage hfailures (fun content => Record.ofSector content = .ok none)
      Record.ofSector_zero ?_⟩
  intro sector hlt hout
  obtain ⟨hreadable, rfl, -⟩ := read_eq_ok.1 hread
  obtain ⟨content, hcontent, hnone⟩ := (holds_ledger hreadable).free sector hlt hout
  exact ⟨content, (Device.read_eq_ok.1 hcontent).2, hnone⟩

/-- If all sectors that held no record were clear, it mirrors the recovered catalog. -/
theorem mirrors_rewrite (hshortages : staging.shortages = [])
    (hfailures : (t.flush staging).2 = [])
    (hclear : ∀ sector < device.sectorCount, sector ∉ found.map Found.sector →
      device.medium.read sector = .ok Sector.zero) : (t.flush staging).1.Mirrors r.catalog := by
  obtain ⟨-, hsuspect, -, -⟩ := placed_rewrite hread h hstage
  refine ⟨keeps_rewrite hread h hstage hshortages hfailures, hsuspect, fun sector hlt hout => ?_⟩
  obtain ⟨content, hcontent, rfl⟩ := vacant_rewrite hread h hstage hfailures (· = Sector.zero) rfl
    (fun sector hlt hout => ⟨_, hclear sector hlt hout, rfl⟩) sector hlt hout
  exact hcontent

/-- A sector that no record was read from is left as it is, and free. -/
theorem spared_rewrite {sector : Nat} (hlt : sector < device.sectorCount)
    (hout : sector ∉ found.map Found.sector) :
    (t.flush staging).1.device.medium.read sector = device.medium.read sector ∧
      (t.flush staging).1.inUse[sector]? = some false := by
  obtain ⟨hdevice, -⟩ := placed_rewrite hread h hstage
  obtain ⟨-, hinUse⟩ := roomy_rewrite hread h hstage
  refine ⟨?_, ?_⟩
  · rw [← hdevice]
    refine Store.read_write_of_notMem fun hin => ?_
    obtain ⟨w, hw, rfl⟩ := List.mem_map.1 hin
    exact hout (sector_mem_of_write hread h hstage w hw)
  · have hfree : (inUse device found)[sector]? = some false := by
      rw [getElem?_inUse, if_pos hlt, Option.some_inj, List.any_eq_false]
      intro f hf hsector
      exact hout (List.mem_map.2 ⟨f, hf, of_decide_eq_true hsector⟩)
    unfold Store.flush
    rw [SectorMap.getElem?_release, hinUse, hfree, ite_self]

end Rewriting

end Recovery

namespace Directory

/-- **Recovery needs no sector that did not hold a record**: such a sector is left as it is, and free. -/
theorem spared_recover {config : Configuration} {device device' : Device} {d : Directory}
    (h : recover config device = (.ok d, device')) {store : Store} (hstore : d.store = some store)
    {sector : Nat} {content : Sector} (hcontent : device.medium.read sector = .ok content)
    (hfree : content.code = 0) :
    device'.medium.read sector = .ok content ∧ store.inUse[sector]? = some false := by
  rw [← device_recover h hstore, ← hcontent]
  obtain ⟨found, r, t, staging, hread, hbuild, hstage, -, rfl⟩ := recover_eq_ok h
  cases hstore
  refine spared_rewrite hread hbuild hstage (Medium.exists_read_iff.1 ⟨content, hcontent⟩) ?_
  intro hin
  obtain ⟨f, hf, rfl⟩ := List.mem_map.1 hin
  obtain ⟨content', hcontent', hrecord⟩ := ofSector_of_read hread hf
  obtain rfl := Except.ok.inj (hcontent.symm.trans (Device.read_eq_ok.1 hcontent').2)
  rw [Sector.ofSector_eq_ok.2 (.free hfree)] at hrecord
  cases hrecord

/-- **What recovery leaves behind is recovered alike**, but for extents that are merged when the tables
are built again. -/
theorem recover_recovered {config : Configuration} {device device' : Device} {d : Directory}
    (h : recover config device = (.ok d, device')) :
    ∃ e, (recover config device'.copy).1 = .ok e ∧ e.catalog = d.catalog.rebuilt := by
  obtain ⟨found, r, t, staging, hread, hbuild, hstage, hreport, rfl⟩ := recover_eq_ok h
  obtain ⟨hfailures, hshortages⟩ := Store.report_eq_none.1 hreport
  obtain ⟨hcomplete, hrestart⟩ := rebuild_iff.1 ⟨r, hbuild, rfl⟩
  obtain ⟨hdivided, -, hcapacity⟩ := divided_rebuild hread hbuild
  have hindexed := indexed_rebuild (distinct_of_read hread) hbuild
  have hcarries := carries_rewrite hread hbuild hstage hshortages hfailures
  have hsettled : ∀ set ∈ r.catalog.sets, set.Settled := fun set hset =>
    settled_of_restart hread hcomplete hrestart hset (hindexed.nonempty set hset)
  -- words can number what lies on the pack, and the file tracks were read from words
  have hextents : ∀ set ∈ r.catalog.sets, ∀ d ∈ set.cycles, ∀ e ∈ d.item.table.extents,
      e.stored = e := fun set hset d hd e he =>
    hdivided.stored_extent (hcapacity ▸ Nat.min_le_right _ _) hset hd he
      ((hsettled set hset).starts d hd e he)
  have hleft : r.catalog.rebuilt.left = (remains found).map Remains.rebuilt := by
    rw [Catalog.left, Catalog.rebuilt, List.filterMap_map, ← remains_setsFrom 0 (remains found),
      ← sets_of_restart hrestart, List.map_map, ← List.filterMap_eq_map]
    refine List.filterMap_congr ?_
    intro set hset
    exact left_rebuilt_of_settled (hsettled set hset) (hindexed.nonempty set hset)
  rw [← device_recover h rfl]
  refine (hcarries.recover_iff hindexed (fun set hset => (hsettled set hset).attributable)
    hextents).2 ⟨fun set hset => (hsettled set hset).numbered, ?_⟩
  rw [hleft]
  exact restart_rebuilt hrestart (ascending_remains hread)

end Directory

end FileDirectory
