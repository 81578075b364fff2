/-
**A recovered directory inherits what the records say.**

A running directory keeps its tables free of overlaps, its cycle numbers on the circle and its cycles
inside their windows.  Recovery checks none of this: it takes extents, numbers and windows over as they
are recorded.  So a recovered directory is orderly exactly if the records of its live cycles are, and
there are media with overlapping extents that are recovered all the same.

Main definitions:

* `FileDirectory.Catalog.Orderly` — what a running directory keeps up;
* `FileDirectory.Recovery.OrderlyRecords` — the same, of the records of live cycles;
* `FileDirectory.Recovery.TakenOver` — a cycle and the records that it was recovered from.

Main results:

* `FileDirectory.Recovery.nodup_fileTracks_tableIn` — extents that are recorded apart stay apart;
* `FileDirectory.Recovery.exists_takenOver` — the recovered cycles are the live cycles of the medium;
* `FileDirectory.Directory.orderly_recover_iff` — when a recovered directory is orderly.
-/

import FileDirectory.Proofs.Catalog.Numbering
import FileDirectory.Proofs.Directory.Admitted
import FileDirectory.Proofs.Directory.Rearranged
import FileDirectory.Proofs.Pack.Rebuilding

set_option autoImplicit false

namespace FileDirectory

open Record

/-- What a running directory keeps up, of the tables and the numbers of its cycles. -/
structure Catalog.Orderly (c : Catalog) : Prop where
  /-- No file track of a cycle is in two extents of its table. -/
  apart : ∀ set ∈ c.sets, ∀ d ∈ set.cycles, d.item.table.fileTracks.Nodup
  highest : ∀ set ∈ c.sets, 1 ≤ set.lead.highest ∧ set.lead.highest ≤ Cycle.highestNumber
  numbers : ∀ set ∈ c.sets, ∀ d ∈ set.cycles,
    1 ≤ d.item.key.cycle ∧ d.item.key.cycle ≤ Cycle.highestNumber
  range : ∀ set ∈ c.sets, set.currentRange ≤ set.lead.maxRange

namespace Recovery

/-! ### The records of live cycles -/

/-- The lead record and the identity record of a live cycle, with its allocation records, are as a
running directory writes them. -/
structure OrderlyRecords (contents : List Sector) (lead identity : Sector) : Prop where
  /-- No file track is in two extents of the table that the allocation records make up. -/
  apart : (tableIn contents (keyOf identity)).fileTracks.Nodup
  highest : 1 ≤ lead[10].get .h1 ∧ lead[10].get .h1 ≤ Cycle.highestNumber
  number : 1 ≤ (keyOf identity).cycle ∧ (keyOf identity).cycle ≤ Cycle.highestNumber
  /-- The cycle lies less than the greatest range of its file set below the highest one. -/
  range : Cycle.age (lead[10].get .h1) (keyOf identity).cycle < lead[9].get .h2

/-- A lead item and a main item of its set, and the lead and identity records that they are taken over
from. -/
structure TakenOver (contents : List Sector) (lead : LeadItem) (m : MainItem) (l s : Sector) :
    Prop where
  leadRecord : l ∈ contents ∧ l.code = leadCode
  identity : s ∈ contents ∧ s.live
  named : nameOf l = nameOf s
  highest : lead.highest = l[10].get .h1
  maxRange : lead.maxRange = l[9].get .h2
  key : m.key = keyOf s
  table : m.table = tableIn contents (keyOf s)

/-- Extents that are recorded apart from one another stay so. -/
theorem nodup_fileTracks_tableIn {contents : List Sector} {key : CycleKey}
    (h : (tracksIn ((extentsIn contents key).map Extent.fileRegion)).Nodup) :
    (tableIn contents key).fileTracks.Nodup :=
  (ExtentTable.fileTracks_foldl_insert h).nodup_iff.2 h

/-- A completed item is taken over from the records that it was made out of. -/
theorem takenOver_completed {device : Device}
    (hreads : ∀ sector < device.sectorCount, device.failsRead sector = false)
    (hdecodes : ∀ s ∈ device.medium.contents, s.Decodes) (hcoherent : Coherent (ledger device))
    {l s : Sector} {lead : LeadItem} {main : MainItem × Nat} (hl : l ∈ device.medium.contents)
    (hlead : l.record? = some (.lead lead)) (hs : s ∈ device.medium.contents)
    (hidentity : s.record? = some (.main main.1)) (hmain : main ∈ mains (ledger device))
    (hlive : liveIn lead.name main.1) :
    TakenOver device.medium.contents { lead with plusOneExists := false }
      (afterStop (completed (ledger device) main.1)) l s := by
  rw [liveIn, Bool.and_eq_true, decide_eq_true_iff, decide_eq_true_iff] at hlive
  cases Sector.record?_eq_some.1 hlead with
  | lead hcode hitem =>
      cases Sector.record?_eq_some.1 hidentity with
      | main hcode' hitem' =>
          obtain ⟨hname, hhighest, hrange⟩ := Sector.fields_of_lead hitem
          obtain ⟨hkey, hstate, -⟩ := Sector.fields_of_main hcode' hitem'
          refine ⟨⟨hl, hcode⟩, ⟨hs, hstate.1 hlive.2⟩, ?_, hhighest, hrange, hkey, ?_⟩
          · rw [← hname, ← hlive.1, hkey]
            rfl
          · rw [← hkey]
            exact table_completed_ledger hreads hdecodes hcoherent hmain

/-- **The recovered cycles are the live cycles of the medium**, each taken over from its records. -/
theorem exists_takenOver {config : Configuration} {device device' : Device} {d : Directory}
    (h : Directory.recover config device = (.ok d, device')) :
    (∀ set ∈ d.catalog.sets, ∀ c ∈ set.cycles,
      ∃ l s, TakenOver device.medium.contents set.lead c.item l s) ∧
    ∀ l ∈ device.medium.contents, l.code = leadCode →
      ∀ s ∈ device.medium.contents, s.live → nameOf l = nameOf s →
        ∃ set ∈ d.catalog.sets, ∃ c ∈ set.cycles,
          TakenOver device.medium.contents set.lead c.item l s := by
  obtain ⟨hreads, hdecodes, hcoherent, hrestart⟩ := of_recover h
  have htaken := @takenOver_completed _ hreads hdecodes hcoherent
  refine ⟨?_, ?_⟩
  · intro set hset c hc
    obtain ⟨lead, hlead, main, hmain, hlive, hset', hitem⟩ :=
      exists_mem_remains_iff.1 ((exists_cycle_iff hrestart).1 ⟨set, hset, rfl, c, hc, rfl⟩)
    obtain ⟨l, hl, hleadRecord⟩ := (exists_mem_ledger_iff hreads).1 ⟨_, mem_leads.1 hlead⟩
    obtain ⟨s, hs, hidentity⟩ := (exists_mem_ledger_iff hreads).1 ⟨_, mem_mains.1 hmain⟩
    rw [hset', hitem]
    exact ⟨l, s, htaken hl hleadRecord hs hidentity hmain hlive⟩
  · intro l hl hcode s hs hlive hnamed
    have hidentityCode := Sector.code_of_live hlive
    obtain ⟨lead, hlead⟩ := Sector.exists_lead_iff.2 ((hdecodes l hl).fileType (Or.inl hcode))
    obtain ⟨m, hm⟩ := Sector.exists_main_iff.2 ((hdecodes s hs).fileType (Or.inr hidentityCode))
    have hleadRecord := Sector.record?_eq_some.2 (.lead hcode hlead)
    have hidentity := Sector.record?_eq_some.2 (.main hidentityCode hm)
    obtain ⟨i, hi⟩ := (exists_mem_ledger_iff hreads).2 ⟨l, hl, hleadRecord⟩
    obtain ⟨j, hj⟩ := (exists_mem_ledger_iff hreads).2 ⟨s, hs, hidentity⟩
    have hmain : (m, j) ∈ mains (ledger device) := mem_mains.2 hj
    -- the cycle is of the file set whose name the lead record has
    have hliveIn : liveIn lead.name m := by
      obtain ⟨hkey, hstate, -⟩ := Sector.fields_of_main hidentityCode hm
      rw [liveIn, Bool.and_eq_true, decide_eq_true_iff, decide_eq_true_iff]
      exact ⟨by rw [hkey, (Sector.fields_of_lead hlead).1, hnamed]; rfl, hstate.2 hlive⟩
    obtain ⟨set, hset, hset', c, hc, hitem⟩ :=
      (exists_cycle_iff hrestart).2 (exists_mem_remains_iff.2
        ⟨(lead, i), mem_leads.2 hi, (m, j), hmain, hliveIn, rfl, rfl⟩)
    refine ⟨set, hset, c, hc, ?_⟩
    rw [hset', hitem]
    exact htaken hl hleadRecord hs hidentity hmain hliveIn

end Recovery

namespace Directory

open Recovery

/-- **A recovered directory is orderly exactly if the records of its live cycles are.** -/
theorem orderly_recover_iff {config : Configuration} {device device' : Device} {d : Directory}
    (h : recover config device = (.ok d, device')) :
    d.catalog.Orderly ↔
      ∀ l ∈ device.medium.contents, l.code = leadCode →
        ∀ s ∈ device.medium.contents, s.live → nameOf l = nameOf s →
          OrderlyRecords device.medium.contents l s := by
  obtain ⟨htaken, hall⟩ := exists_takenOver h
  constructor
  · intro horderly l hl hcode s hs hlive hnamed
    obtain ⟨set, hset, c, hc, ht⟩ := hall l hl hcode s hs hlive hnamed
    have hage := FileSet.currentRange_le_iff.1 (horderly.range set hset) c hc
    rw [FileSet.ageOf, ht.highest, ht.maxRange, ht.key] at hage
    exact {
      apart := ht.table ▸ horderly.apart set hset c hc
      highest := ht.highest ▸ horderly.highest set hset
      number := ht.key ▸ horderly.numbers set hset c hc
      range := hage }
  · intro hrecords
    -- every set has a cycle, so that what the records say of its lead item is known
    have htakenOrderly : ∀ set ∈ d.catalog.sets, ∀ c ∈ set.cycles,
        ∃ l s, TakenOver device.medium.contents set.lead c.item l s ∧
          OrderlyRecords device.medium.contents l s := by
      intro set hset c hc
      obtain ⟨l, s, ht⟩ := htaken set hset c hc
      exact ⟨l, s, ht, hrecords l ht.leadRecord.1 ht.leadRecord.2 s ht.identity.1 ht.identity.2
        ht.named⟩
    refine ⟨?_, ?_, ?_, ?_⟩
    · intro set hset c hc
      obtain ⟨l, s, ht, horderly⟩ := htakenOrderly set hset c hc
      exact ht.table ▸ horderly.apart
    · intro set hset
      obtain ⟨c, hc⟩ := List.exists_mem_of_ne_nil _ ((keeps_recover h).1.nonempty set hset)
      obtain ⟨l, s, ht, horderly⟩ := htakenOrderly set hset c hc
      exact ht.highest ▸ horderly.highest
    · intro set hset c hc
      obtain ⟨l, s, ht, horderly⟩ := htakenOrderly set hset c hc
      exact ht.key ▸ horderly.number
    · intro set hset
      refine FileSet.currentRange_le_iff.2 fun c hc => ?_
      obtain ⟨l, s, ht, horderly⟩ := htakenOrderly set hset c hc
      rw [FileSet.ageOf, ht.highest, ht.maxRange, ht.key]
      exact horderly.range

/-- A lead record and the records of a disk file whose two extents have two file tracks in common. -/
def overlapped : List Sector :=
  let item : MainItem :=
    { MainItem.ofLead diskLead 1 .live with table := ⟨[⟨0, 0, 5⟩, ⟨3, 5, 5⟩]⟩ }
  diskLead.record 1 1 :: item.records

theorem tags_overlapped : overlapped.filterMap Sector.tag? =
    [.lead ⟨"Q", "D"⟩, .main ⟨⟨"Q", "D"⟩, 1⟩, .backup ⟨⟨"Q", "D"⟩, 1⟩,
      .allocation ⟨⟨"Q", "D"⟩, 1⟩ 0] := by
  decide +kernel

theorem admissible_overlapped : Admissible {} overlapped :=
  admissible_of_tags (fun _ => Sector.decodes_of_mem_cons_records) tags_overlapped (by decide)
    (by simp) (by simp) (by decide +kernel) (by decide +kernel)

/-- Extents that overlap are recovered. -/
theorem recover_overlapped :
    ∃ device d device', recover {} device = (.ok d, device') ∧
      device.medium.contents = overlapped := by
  obtain ⟨device, hhealthy, hreads, hcontents⟩ :=
    Device.exists_contents (l := overlapped) (by decide +kernel)
  obtain ⟨d, hd⟩ := (hcontents ▸ admissible_overlapped).recover hhealthy fun sector _ => hreads sector
  exact ⟨device, d, _, Prod.ext hd rfl, hcontents⟩

/-- The directory that is recovered from them is not orderly. -/
theorem orderly_recover_overlapped :
    ∃ device d device', recover {} device = (.ok d, device') ∧
      device.medium.contents = overlapped ∧ ¬d.catalog.Orderly := by
  obtain ⟨device, d, device', hrecover, hcontents⟩ := recover_overlapped
  refine ⟨device, d, device', hrecover, hcontents, fun horderly => ?_⟩
  have hrecords := (orderly_recover_iff hrecover).1 horderly
  rw [hcontents] at hrecords
  have hlive : (overlapped.filter Sector.live).map keyOf = [⟨⟨"Q", "D"⟩, 1⟩] := by decide +kernel
  have htwice : ¬(tableIn overlapped ⟨⟨"Q", "D"⟩, 1⟩).fileTracks.Nodup := by decide +kernel
  obtain ⟨s, hs, hkey⟩ := List.mem_map.1 (hlive ▸ List.mem_singleton.2 rfl)
  obtain ⟨hs, hlive⟩ := List.mem_filter.1 hs
  obtain ⟨l, hl, hcode, hname⟩ := admissible_overlapped.lead s hs (Sector.code_of_live hlive)
  exact htwice (hkey ▸ (hrecords l hl hcode s hs hlive hname).apart)

end Directory

end FileDirectory
