/-
**Without a failure the medium mirrors the catalog.**

As long as no operation reports an error of the medium, no cycle is suspect, so that every cycle is
on the medium, and the sectors that belong to no file set are clear: what is on the medium is what is
recorded, and nothing else.

Main definitions:

* `FileDirectory.Store.UpToDate` — every cycle is on the medium;
* `FileDirectory.Store.Carries` — every cycle is on the medium and no other sector holds a record;
* `FileDirectory.Store.Mirrors` — every cycle is on the medium and every other sector is clear.

Main results:

* `FileDirectory.Store.vacant_flush` — carrying writes out leaves the sectors vacant that nobody has;
* `FileDirectory.Store.Mirrors.record` — recording a file set without a failure keeps this up.
-/

import FileDirectory.Proofs.Directory.Format

set_option autoImplicit false

namespace FileDirectory.Store

/-- Every cycle of the catalog is on the medium as it is in memory. -/
structure UpToDate (c : Catalog) (s : Store) : Prop where
  keeps : Keeps c s
  suspect : s.suspect = []
  recorded : ∀ set ∈ c.sets, ∀ d ∈ set.cycles, s.Recorded set d

/-- Every cycle of the catalog is on the medium as it is in memory, and the sectors that no file set
has hold no records. -/
structure Carries (c : Catalog) (s : Store) : Prop where
  keeps : Keeps c s
  suspect : s.suspect = []
  recorded : ∀ set ∈ c.sets, ∀ d ∈ set.cycles, s.Recorded set d
  vacant : ∀ sector < s.device.sectorCount, sector ∉ s.owned →
    ∃ content, s.device.medium.read sector = .ok content ∧ Record.ofSector content = .ok none

theorem Carries.upToDate {c : Catalog} {s : Store} (h : Carries c s) : UpToDate c s :=
  ⟨h.keeps, h.suspect, h.recorded⟩

/-- Every cycle of the catalog is on the medium, and the sectors that no file set has are clear. -/
structure Mirrors (c : Catalog) (s : Store) : Prop where
  keeps : Keeps c s
  suspect : s.suspect = []
  clear : ∀ sector < s.device.sectorCount, sector ∉ s.owned →
    s.device.medium.read sector = .ok Sector.zero

/-- Carrying staged writes out without a failure leaves every sector vacant that then belongs to
nobody, if it was so before; a cleared sector is. -/
theorem vacant_flush (s : Store) (Vacant : Sector → Prop) {inUse : SectorMap} {staging : Staging}
    {old others claimed freed new : List Nat} {writes : List Write} (hzero : Vacant Sector.zero)
    (hnodup : (old ++ others).Nodup)
    (hinUse : ∀ sector ∈ old ++ others, inUse[sector]? = some true)
    (haccount : Staging.Account { inUse := inUse } old claimed freed writes staging new)
    (hfailures : (s.flush staging).2 = [])
    (hvacant : ∀ sector < s.device.sectorCount, sector ∉ old ++ others →
      ∃ content, s.device.medium.read sector = .ok content ∧ Vacant content) :
    ∀ sector < s.device.sectorCount, sector ∉ new ++ others →
      ∃ content, (s.flush staging).1.device.medium.read sector = .ok content ∧ Vacant content := by
  obtain ⟨-, -, -, hread⟩ := flush_spec s hnodup hinUse haccount
  obtain ⟨-, -, hwrites, hperm, hsubperm, hclears⟩ := haccount
  intro sector hlt hout
  rw [List.mem_append, not_or] at hout
  by_cases hfreed : sector ∈ freed
  · have hw : (⟨sector, Sector.zero, none⟩ : Write) ∈ writes :=
      hclears _ (List.mem_map_of_mem hfreed)
    refine ⟨_, hread _ hw ?_, hzero⟩
    rw [hfailures]
    intro f hf
    cases hf
  · have hnot : sector ∉ new ++ freed := by
      rw [List.mem_append, not_or]
      exact ⟨hout.1, hfreed⟩
    have hkept : (s.flush staging).1.device.medium.read sector = s.device.medium.read sector := by
      refine read_write_of_notMem ?_
      rw [hwrites]
      exact fun hin => hnot (hsubperm.subset hin)
    rw [hkept]
    refine hvacant sector hlt ?_
    rw [List.mem_append, not_or]
    exact ⟨fun hold => hnot (hperm.mem_iff.2 (List.mem_append_left _ hold)), hout.2⟩

/-- Without a complaint about missing space every cycle had space. -/
theorem unplaced_stage {s : Store} {set : FileSet} (hfiles : set.files.Nodup)
    (hplaced : ((s.placement set.name).cycles.map Prod.fst).Nodup)
    (h : (s.stage set.name (some set)).2.shortages = []) :
    (s.stage set.name (some set)).2.unplaced = [] := by
  obtain ⟨p', claimed, freed, writes, -, -, hstaged⟩ := account_stage s hfiles hplaced
  exact ((hstaged.placed h).2 rfl).1

namespace Mirrors

variable {c c' : Catalog} {s : Store}

theorem format (config : Configuration) {device : Device}
    (h : ∀ sector < device.sectorCount, device.medium.read sector = .ok Sector.zero) :
    Mirrors (Catalog.empty config)
      { device := device, inUse := List.replicate device.sectorCount false } where
  keeps := Directory.keeps_format config device
  suspect := rfl
  clear := fun sector hlt _ => h sector hlt

/-- What recording a file set, or its absence, keeps up whichever of the two it is. -/
theorem record_of_account (h : Mirrors c s) {name : SetName} {set? : Option FileSet}
    {claimed freed : List Nat} {writes : List Write} (hkeeps : Keeps c' (s.record name set?).1)
    (haccount : Staging.Account { inUse := s.inUse } (s.placement name).sectors claimed freed writes
      (s.stage name set?).2 ((s.stage name set?).1.toList.flatMap Placement.sectors))
    (hunplaced : (s.stage name set?).2.unplaced = [])
    (hquiet : (s.record name set?).2 = none) : Mirrors c' (s.record name set?).1 := by
  have hfailures : ((s.place name (s.stage name set?).1).flush (s.stage name set?).2).2 = [] :=
    (report_eq_none.1 hquiet).1
  refine ⟨hkeeps, ?_, ?_⟩
  · have hsuspect : ((s.place name (s.stage name set?).1).flush
        (s.stage name set?).2).1.suspect = [] := h.suspect
    unfold Store.record
    dsimp only
    rw [hfailures, hunplaced, hsuspect]
    simp [doubtful]
  · have hperm := perm_owned h.keeps.nodup_names name
    have howned : (s.record name set?).1.owned =
        (s.stage name set?).1.toList.flatMap Placement.sectors ++ s.others name :=
      owned_place s name _
    have hcount : (s.record name set?).1.device.sectorCount = s.device.sectorCount :=
      sectorCount_write s.device (s.stage name set?).2.writes
    rw [hcount, howned]
    have hvacant := vacant_flush (s.place name (s.stage name set?).1) (· = Sector.zero) rfl
      (hperm.nodup_iff.1 h.keeps.nodup_owned)
      (fun sector hsector => h.keeps.inUse_of_owned sector (hperm.mem_iff.2 hsector)) haccount
      hfailures
      fun sector hlt hout => ⟨_, h.clear sector hlt fun hin => hout (hperm.mem_iff.1 hin), rfl⟩
    intro sector hlt hout
    obtain ⟨content, hread, rfl⟩ := hvacant sector hlt hout
    exact hread

/-- **Recording the set of a name anew, or its absence, without a failure** keeps every cycle on the
medium and every other sector clear. -/
theorem record (h : Mirrors c s) (hc : c.Indexed) (hc' : c'.Indexed) {name : SetName}
    (hframe : ∀ t : FileSet, t.name ≠ name → (t ∈ c'.sets ↔ t ∈ c.sets))
    (hquiet : (s.record name (c'.find? name)).2 = none) :
    Mirrors c' (s.record name (c'.find? name)).1 := by
  have hkeeps := h.keeps.record hc hc' hframe
  have hshortages : (s.stage name (c'.find? name)).2.shortages = [] := (report_eq_none.1 hquiet).2
  cases hfind : c'.find? name with
  | none =>
      rw [hfind] at hkeeps hquiet
      obtain ⟨freed, writes, hstage, haccount, -, hunplaced⟩ := account_stage_none s name
      refine h.record_of_account hkeeps (show Staging.Account _ _ [] freed writes _ _ from ?_)
        hunplaced hquiet
      rw [hstage]
      exact haccount
  | some set =>
      obtain ⟨hset, rfl⟩ := (Catalog.find?_eq_some_iff hc'.ordered).1 hfind
      rw [hfind] at hkeeps hquiet hshortages
      have hfiles := hc'.nodup set hset
      have hplaced := h.keeps.nodup_placement hc set.name
      obtain ⟨p', claimed, freed, writes, hstage, haccount, -⟩ := account_stage s hfiles hplaced
      refine h.record_of_account hkeeps (show Staging.Account _ _ claimed freed writes _ _ from ?_)
        (unplaced_stage hfiles hplaced hshortages) hquiet
      rw [hstage, Option.toList_some, List.flatMap_singleton]
      exact haccount

/-- Every cycle that shows no directory error by itself is on the medium. -/
theorem recorded (h : Mirrors c s) {set : FileSet} (hset : set ∈ c.sets) {d : FileCycle}
    (hd : d ∈ set.cycles) (hdisable : d.item.disable.directoryError = false) :
    s.Recorded set d := by
  refine h.keeps.recorded set hset d hd ?_
  rw [shown_of_suspect_eq_nil h.suspect, hdisable]

end Mirrors

end FileDirectory.Store
