/-
**Recovery looks at the contents of the sectors.**

A medium is told by the contents of its sectors.  Where the sectors are does not matter: which records
are told apart, which of them belong together, and which tracks the live cycles claim can all be read
off the contents as a list.

Main definitions:

* `FileDirectory.Medium.contents` — the contents of all sectors of a medium;
* `FileDirectory.Recovery.allocationsIn`, `FileDirectory.Recovery.tableIn` — the allocation records of
  a cycle, and the table that is rebuilt from them;
* `FileDirectory.Recovery.claimedIn` — the pack tracks that the live cycles claim.

Main results:

* `FileDirectory.Recovery.records_ledger`, `FileDirectory.Recovery.tags_ledger` — the records on a
  medium, and what they are records of;
* `FileDirectory.Recovery.recover_iff_ledger` — when a medium is recovered, and the catalog that this
  gives;
* `FileDirectory.Recovery.perm_tracks_remains` — what is left claims the tracks of the live cycles.
-/

import FileDirectory.Proofs.Record.Sector
import FileDirectory.Proofs.Recovery.Ledger

set_option autoImplicit false

namespace FileDirectory

open Record

/-! ### Contents -/

/-- The contents of the sectors of a medium, in their order. -/
def Medium.contents (m : Medium) : List Sector :=
  (List.range m.sectorCount).filterMap fun sector => (m.read sector).toOption

theorem Medium.exists_read_iff {m : Medium} {sector : Nat} :
    (∃ s, m.read sector = .ok s) ↔ sector < m.sectorCount := by
  by_cases h : sector < m.sectorCount <;> simp [Medium.read, h]

theorem Medium.mem_contents {m : Medium} {s : Sector} :
    s ∈ m.contents ↔ ∃ sector < m.sectorCount, m.read sector = .ok s := by
  unfold contents
  rw [List.mem_filterMap]
  refine exists_congr fun sector => ?_
  rw [List.mem_range]
  cases m.read sector <;> simp [Except.toOption]

theorem filterMap_getElem?_range {α : Type} (l : List α) :
    (List.range l.length).filterMap (fun i => l[i]?) = l := by
  induction l with
  | nil => rfl
  | cons a l ih =>
      rw [List.length_cons, List.range_succ_eq_map, List.filterMap_cons, List.filterMap_map]
      exact congrArg (a :: ·) ih

/-- **Any list of sectors is on some medium** that can be read and written, if an image can be that
large. -/
theorem Device.exists_contents {l : List Sector} (h : l.length * sectorBytes ≤ Medium.maxBytes) :
    ∃ device : Device, device.Healthy ∧ (∀ sector, device.failsRead sector = false) ∧
      device.medium.contents = l := by
  let blank : Device := { medium := .ofSectorCount l.length }
  let ws : List Write := l.mapIdx fun i s => { sector := i, content := s }
  have hblank : blank.sectorCount = l.length := by
    show (Array.replicate (if l.length * sectorBytes ≤ Medium.maxBytes then l.length * sectorBytes
      else 0) (0 : UInt8)).size / sectorBytes = l.length
    rw [if_pos h, Array.size_replicate, Nat.mul_div_cancel _ (by decide)]
  have hbound : ∀ w ∈ ws, w.sector < blank.sectorCount := by
    intro w hw
    obtain ⟨i, hi, rfl⟩ := List.mem_mapIdx.1 hw
    exact hblank ▸ hi
  have hnodup : (ws.map Write.sector).Nodup := by
    have hsectors : ws.map Write.sector = List.range l.length :=
      List.ext_getElem (by simp [ws]) (by simp [ws])
    rw [hsectors]
    exact List.nodup_range
  obtain ⟨hnone, hhealthy⟩ := Store.write_healthy (Device.healthy_blank l.length) hbound
  refine ⟨(Store.write blank ws).1, hhealthy, ?_, ?_⟩
  · intro sector
    rw [Store.failsRead_write]
  · have hcount : (Store.write blank ws).1.medium.sectorCount = l.length :=
      (Store.sectorCount_write blank ws).trans hblank
    rw [Medium.contents, hcount]
    refine Eq.trans (List.filterMap_congr ?_) (filterMap_getElem?_range l)
    intro i hi
    have hlt := List.mem_range.1 hi
    have hw : (⟨i, l[i], none⟩ : Write) ∈ ws := List.mem_mapIdx.2 ⟨i, hlt, rfl⟩
    rw [Store.read_write_of_mem hnodup hw (by rw [hnone]; exact fun f hf => (by cases hf)),
      List.getElem?_eq_getElem hlt]
    rfl

namespace Recovery

section Contents

variable {device : Device}

/-- Every sector can be read exactly if the contents of all decode. -/
theorem forall_readable_iff
    (hreads : ∀ sector < device.sectorCount, device.failsRead sector = false) :
    (∀ sector < device.sectorCount, Readable device sector) ↔
      ∀ s ∈ device.medium.contents, s.Decodes := by
  have hread : ∀ sector < device.sectorCount, device.read sector = device.medium.read sector := by
    intro sector hlt
    rw [Device.read, hreads sector hlt, if_neg Bool.false_ne_true]
  constructor
  · intro h s hs
    obtain ⟨sector, hlt, hcontent⟩ := Medium.mem_contents.1 hs
    obtain ⟨content, record, hok, hrecord⟩ := h sector hlt
    rw [hread sector hlt, hcontent] at hok
    cases hok
    exact Sector.exists_ofSector_iff.1 ⟨record, hrecord⟩
  · intro h sector hlt
    obtain ⟨content, hcontent⟩ := Medium.exists_read_iff.2 hlt
    obtain ⟨record, hrecord⟩ :=
      Sector.exists_ofSector_iff.2 (h content (Medium.mem_contents.2 ⟨sector, hlt, hcontent⟩))
    exact ⟨_, record, (hread sector hlt).trans hcontent, hrecord⟩

/-- **The records on a medium** are those in its sectors. -/
theorem records_ledger (hreads : ∀ sector < device.sectorCount, device.failsRead sector = false) :
    (ledger device).map Found.record = device.medium.contents.filterMap Sector.record? := by
  unfold ledger Medium.contents
  rw [List.map_filterMap, List.filterMap_filterMap]
  refine List.filterMap_congr ?_
  intro sector hsector
  rw [foundAt, Device.read, hreads sector (List.mem_range.1 hsector), if_neg Bool.false_ne_true]
  cases device.medium.read sector with
  | error e => rfl
  | ok content =>
      simp only [Except.toOption, Option.bind_some, Sector.record?]
      cases Record.ofSector content with
      | error e => rfl
      | ok record => cases record <;> rfl

theorem exists_mem_ledger_iff
    (hreads : ∀ sector < device.sectorCount, device.failsRead sector = false) {r : Record} :
    (∃ sector, ⟨sector, r⟩ ∈ ledger device) ↔
      ∃ s ∈ device.medium.contents, s.record? = some r := by
  have hrecords : r ∈ (ledger device).map Found.record ↔
      ∃ s ∈ device.medium.contents, s.record? = some r := by
    rw [records_ledger hreads, List.mem_filterMap]
  rw [← hrecords, List.mem_map]
  constructor
  · rintro ⟨sector, hin⟩
    exact ⟨_, hin, rfl⟩
  · rintro ⟨⟨sector, record⟩, hin, rfl⟩
    exact ⟨sector, hin⟩

/-- What the records on a medium are records of. -/
theorem tags_ledger (hreads : ∀ sector < device.sectorCount, device.failsRead sector = false)
    (hdecodes : ∀ s ∈ device.medium.contents, s.Decodes) :
    (ledger device).map (fun f => f.record.tag) =
      device.medium.contents.filterMap Sector.tag? := by
  have hmap := congrArg (List.map Record.tag) (records_ledger hreads)
  rw [List.map_map, List.map_filterMap] at hmap
  refine hmap.trans (List.filterMap_congr ?_)
  intro s hs
  exact (hdecodes s hs).tag?_eq.symm

/-- **When a medium is recovered, and the catalog that this gives.** -/
theorem recover_iff_ledger (config : Configuration) (hhealthy : device.Healthy)
    (hreads : ∀ sector < device.sectorCount, device.failsRead sector = false) {catalog : Catalog} :
    (∃ d, (Directory.recover config device).1 = .ok d ∧ d.catalog = catalog) ↔
      (∀ s ∈ device.medium.contents, s.Decodes) ∧ Coherent (ledger device) ∧
        restart config (remains (ledger device)) = .ok catalog := by
  rw [← forall_readable_iff hreads]
  constructor
  · intro h
    obtain ⟨found, r, hread, -⟩ := (Directory.recover_healthy config hhealthy).1 h
    have hreadable := (read_eq_ok.1 hread).1
    exact ⟨hreadable, (recover_iff config hhealthy (holds_ledger hreadable)).1 h⟩
  · rintro ⟨hreadable, h⟩
    exact (recover_iff config hhealthy (holds_ledger hreadable)).2 h

/-- **What a medium was that a directory was recovered from**, whether it is healthy or not. -/
theorem of_recover {config : Configuration} {d : Directory} {device' : Device}
    (h : Directory.recover config device = (.ok d, device')) :
    (∀ sector < device.sectorCount, device.failsRead sector = false) ∧
      (∀ s ∈ device.medium.contents, s.Decodes) ∧ Coherent (ledger device) ∧
        restart config (remains (ledger device)) = .ok d.catalog := by
  obtain ⟨found, r, t, staging, hread, hbuild, -, -, rfl⟩ := Directory.recover_eq_ok h
  obtain ⟨hreadable, rfl, htags⟩ := read_eq_ok.1 hread
  have hreads : ∀ sector < device.sectorCount, device.failsRead sector = false := by
    intro sector hlt
    obtain ⟨content, -, hok, -⟩ := hreadable sector hlt
    exact (Device.read_eq_ok.1 hok).1
  obtain ⟨hcomplete, hrestart⟩ := rebuild_iff.1 ⟨r, hbuild, rfl⟩
  exact ⟨hreads, (forall_readable_iff hreads).1 hreadable, ⟨htags, hcomplete⟩, hrestart⟩

theorem Coherent.distinct (h : Coherent (ledger device)) : Distinct (ledger device) :=
  ⟨nodup_sectors_foundAt device, h.tags⟩

end Contents

/-! ### The tables of live cycles -/

/-- The allocation records of a cycle, in their order. -/
def allocationsIn (contents : List Sector) (key : CycleKey) : List Sector :=
  (contents.filter fun s => s.code = allocationCode && keyOf s = key).mergeSort
    fun a b => a.sequence ≤ b.sequence

/-- The extents that are recorded for a cycle, in their order. -/
def extentsIn (contents : List Sector) (key : CycleKey) : List Extent :=
  (allocationsIn contents key).flatMap Sector.extents

/-- The table that is rebuilt for a cycle. -/
def tableIn (contents : List Sector) (key : CycleKey) : ExtentTable :=
  (extentsIn contents key).foldl ExtentTable.insert {}

/-- The pack tracks that the live cycles claim, cycle by cycle. -/
def claimedIn (contents : List Sector) : List Nat :=
  (contents.filter Sector.live).flatMap fun s => (tableIn contents (keyOf s)).packTracks

theorem mem_allocationsIn {contents : List Sector} {key : CycleKey} {s : Sector} :
    s ∈ allocationsIn contents key ↔ s ∈ contents ∧ s.code = allocationCode ∧ keyOf s = key := by
  rw [allocationsIn, List.mem_mergeSort, List.mem_filter, Bool.and_eq_true, decide_eq_true_iff,
    decide_eq_true_iff]

/-- The allocation records of a cycle are told apart by their numbers. -/
theorem pairwise_allocationsIn {contents : List Sector}
    (h : (contents.filterMap Sector.tag?).Nodup) (key : CycleKey) :
    (allocationsIn contents key).Pairwise fun a b => a.sequence < b.sequence := by
  have htags : ((allocationsIn contents key).map Sector.sequence).map (RecordTag.allocation key) =
      (allocationsIn contents key).filterMap Sector.tag? := by
    rw [List.map_map, ← List.filterMap_eq_map]
    refine List.filterMap_congr ?_
    intro s hs
    obtain ⟨-, hcode, rfl⟩ := mem_allocationsIn.1 hs
    simp [Sector.tag?, hcode]
  have hnodup : ((allocationsIn contents key).map Sector.sequence).Nodup := by
    refine List.Nodup.of_map (RecordTag.allocation key) ?_
    rw [htags]
    refine ((List.mergeSort_perm _ _).filterMap Sector.tag?).nodup_iff.2 ?_
    exact h.sublist (List.filter_sublist.filterMap _)
  have hsorted : (allocationsIn contents key).Pairwise fun a b => a.sequence ≤ b.sequence :=
    pairwise_mergeSort_le _
  refine (hsorted.and (List.pairwise_map.1 hnodup)).imp ?_
  rintro a b ⟨hle, hne⟩
  exact Nat.lt_of_le_of_ne hle hne

section Tables

variable {device : Device} (hreads : ∀ sector < device.sectorCount, device.failsRead sector = false)
  (hdecodes : ∀ s ∈ device.medium.contents, s.Decodes) (hcoherent : Coherent (ledger device))

include hreads hdecodes

/-- The live cycles are those of which an identity record says so. -/
theorem perm_keys_liveMains :
    ((liveMains (ledger device)).map fun main => main.1.key).Perm
      ((device.medium.contents.filter Sector.live).map keyOf) := by
  have hmains : ((liveMains (ledger device)).map fun main => main.1.key).Perm
      (((ledger device).map Found.record).filterMap Record.liveKey?) := by
    refine (((List.mergeSort_perm _ _).filter _).map _).trans (List.Perm.of_eq ?_)
    rw [← List.filterMap_eq_map, ← List.filterMap_eq_filter, List.filterMap_filterMap,
      List.filterMap_filterMap, List.filterMap_map]
    refine List.filterMap_congr ?_
    rintro ⟨sector, record⟩ -
    cases record with
    | main item => by_cases hlive : item.state = .live <;> simp [Record.liveKey?, hlive]
    | _ => rfl
  refine hmains.trans (List.Perm.of_eq ?_)
  rw [records_ledger hreads, List.filterMap_filterMap, ← List.filterMap_eq_map,
    ← List.filterMap_eq_filter, List.filterMap_filterMap]
  refine List.filterMap_congr ?_
  intro s hs
  rw [(hdecodes s hs).liveKey?_eq]
  cases hlive : s.live <;> simp [Option.guard, hlive]

include hcoherent

/-- The extents of a cycle are those in its allocation records, in their order. -/
theorem extents_allocationsOf_ledger (key : CycleKey) :
    (allocationsOf (ledger device) key).flatMap FoundExtents.extents =
      extentsIn device.medium.contents key := by
  rw [extentsIn, hcoherent.distinct.extents_allocationsOf
    (l := (allocationsIn device.medium.contents key).map fun s => (s.sequence, s.extents)),
    List.flatMap_map]
  · have htags := hcoherent.tags
    rw [tags_ledger hreads hdecodes] at htags
    exact List.pairwise_map.2 ((pairwise_allocationsIn htags key).imp Nat.compare_eq_lt.2)
  · intro n es
    rw [exists_mem_ledger_iff hreads]
    simp only [List.mem_map, mem_allocationsIn, Prod.mk.injEq]
    refine exists_congr fun s => ?_
    rw [Sector.record?_eq_some]
    constructor
    · rintro ⟨⟨hs, hcode, rfl⟩, rfl, rfl⟩
      exact ⟨hs, .allocation hcode ((hdecodes s hs).count hcode)⟩
    · rintro ⟨hs, hreads⟩
      cases hreads with
      | allocation hcode hcount => exact ⟨⟨hs, hcode, rfl⟩, rfl, rfl⟩

/-- The table of a main item that was completed. -/
theorem table_completed_ledger {main : MainItem × Nat} (hmain : main ∈ mains (ledger device)) :
    (completed (ledger device) main.1).table = tableIn device.medium.contents main.1.key := by
  obtain ⟨s, -, hrecord⟩ := (exists_mem_ledger_iff hreads).1 ⟨_, mem_mains.1 hmain⟩
  cases Sector.record?_eq_some.1 hrecord with
  | main hcode hitem =>
      obtain ⟨-, -, htable⟩ := Sector.fields_of_main hcode hitem
      unfold completed
      dsimp only
      rw [extents_allocationsOf_ledger hreads hdecodes hcoherent, htable]
      rfl

/-- **What is left claims the tracks of the live cycles.** -/
theorem perm_tracks_remains :
    (tracksIn ((remains (ledger device)).flatMap Remains.regions)).Perm
      (claimedIn device.medium.contents) := by
  have hleft := (perm_items_remains hcoherent.distinct hcoherent.complete).flatMap_right
    fun m => m.table.packTracks
  have htables : ((liveMains (ledger device)).map fun main =>
      afterStop (completed (ledger device) main.1)).flatMap (fun m => m.table.packTracks) =
      ((liveMains (ledger device)).map fun main => main.1.key).flatMap fun key =>
        (tableIn device.medium.contents key).packTracks := by
    rw [List.flatMap_map, List.flatMap_map]
    refine List.flatMap_congr ?_
    intro main hmain
    rw [← table_completed_ledger hreads hdecodes hcoherent (List.mem_filter.1 hmain).1]
    rfl
  rw [tracksIn_regions]
  refine hleft.trans ((List.Perm.of_eq htables).trans ?_)
  refine ((perm_keys_liveMains hreads hdecodes).flatMap_right _).trans (List.Perm.of_eq ?_)
  rw [List.flatMap_map]
  rfl

end Tables

/-- **The recovered cycles** are those of which an identity record says that they are live. -/
theorem exists_recovered_iff {config : Configuration} {device device' : Device} {d : Directory}
    (h : Directory.recover config device = (.ok d, device')) {key : CycleKey} :
    (∃ set ∈ d.catalog.sets, ∃ c ∈ set.cycles, c.item.key = key) ↔
      key ∈ (device.medium.contents.filter Sector.live).map keyOf := by
  obtain ⟨hreads, hdecodes, hcoherent, hrestart⟩ := of_recover h
  rw [exists_key_iff hcoherent.complete hrestart,
    ← (perm_keys_liveMains hreads hdecodes).mem_iff, List.mem_map]
  refine exists_congr fun main => ?_
  rw [liveMains, List.mem_filter, decide_eq_true_iff, and_assoc]
  exact and_congr_right fun _ => and_comm

end Recovery

end FileDirectory
