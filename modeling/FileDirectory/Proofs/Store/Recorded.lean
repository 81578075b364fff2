/-
**A cycle that is not disabled is on the medium as it is in memory.**

Whatever attempts at writing fail, a cycle whose records did not reach the medium is marked.  So each
cycle that does not show a directory error has a recorded lead item and a sector for each of its
records, and those sectors hold the current records.  The marking is sound because sectors are never
shared: what is written for one file set leaves the sectors of all others alone.

Main definitions:

* `FileDirectory.Store.Recorded` — the records of a cycle are on the medium;
* `FileDirectory.Store.Keeps` — the sectors of file sets are told apart, and cycles that show no
  directory error are recorded.

Main results:

* `FileDirectory.Store.flush_spec` — what carrying out staged writes does to the sectors of their
  owner and to those of others;
* `FileDirectory.Store.Keeps.record` — recording a file set anew, or its absence, keeps this up.
-/

import FileDirectory.Proofs.Medium.Sectors
import FileDirectory.Proofs.Store.Staging

set_option autoImplicit false

namespace FileDirectory.Store

/-! ### The sectors of file sets -/

/-- The sectors that belong to file sets. -/
def owned (s : Store) : List Nat := s.placed.flatMap fun entry => entry.2.sectors

/-- The sectors that belong to file sets of other names. -/
def others (s : Store) (name : SetName) : List Nat :=
  (s.placed.filter fun entry => entry.1 ≠ name).flatMap fun entry => entry.2.sectors

@[simp] theorem placement_place_self (s : Store) (name : SetName) (p : Placement) :
    (s.place name (some p)).placement name = p := by
  simp [place, placement]

theorem placement_place_of_ne (s : Store) (p : Option Placement) {name other : SetName}
    (h : other ≠ name) : (s.place name p).placement other = s.placement other := by
  have hne : (other == name) = false := by simpa using h
  unfold placement place
  cases p with
  | none => rw [Option.toList_none, List.map_nil, List.nil_append, lookup_filter_ne _ h]
  | some p =>
      rw [Option.toList_some, List.map_singleton, List.singleton_append, List.lookup_cons, hne,
        lookup_filter_ne _ h]

theorem owned_place (s : Store) (name : SetName) (p : Option Placement) :
    (s.place name p).owned = p.toList.flatMap Placement.sectors ++ s.others name := by
  unfold owned others place
  rw [List.flatMap_append, List.flatMap_map]

/-- The sectors of a file set and those of all others are the sectors of all file sets. -/
theorem perm_owned {s : Store} (h : (s.placed.map Prod.fst).Nodup) (name : SetName) :
    s.owned.Perm ((s.placement name).sectors ++ s.others name) := by
  unfold owned others placement
  generalize s.placed = placed at h
  induction placed with
  | nil => exact List.Perm.refl _
  | cons entry placed ih =>
      obtain ⟨key, p⟩ := entry
      obtain ⟨hout, hrest⟩ := List.nodup_cons.1 h
      by_cases heq : key = name
      · subst heq
        have hall : (placed.filter fun entry => entry.1 ≠ key) = placed := by
          rw [List.filter_eq_self]
          intro entry hentry
          refine decide_eq_true ?_
          rintro rfl
          exact hout (List.mem_map.2 ⟨entry, hentry, rfl⟩)
        rw [List.filter_cons_of_neg (by simp), hall, List.lookup_cons_self, Option.getD_some,
          List.flatMap_cons]
      · have hne : (name == key) = false := by simpa using Ne.symm heq
        rw [List.filter_cons_of_pos (by simpa using heq), List.lookup_cons, hne, List.flatMap_cons,
          List.flatMap_cons]
        exact ((ih hrest).append_left _).trans (List.perm_append_comm_assoc _ _ _)

/-- The sectors of file sets, name by name. -/
theorem perm_owned_names {s : Store} (h : (s.placed.map Prod.fst).Nodup) {names : List SetName}
    (hnodup : names.Nodup) (hmem : ∀ name ∈ s.placed.map Prod.fst, name ∈ names) :
    s.owned.Perm (names.flatMap fun name => (s.placement name).sectors) := by
  have hfilter : (names.flatMap fun name => (s.placement name).sectors) =
      (names.flatMap fun name => s.placed.filter fun entry => entry.1 = name).flatMap
        fun entry => entry.2.sectors := by
    rw [List.flatMap_assoc]
    refine List.flatMap_congr ?_
    intro name _
    rw [filter_key_eq h, placement]
    cases s.placed.lookup name with
    | none => rfl
    | some p => simp
  have hperm := perm_flatMap_filter Prod.fst s.placed hnodup
  have hall : (s.placed.filter fun entry => decide (entry.1 ∈ names)) = s.placed := by
    refine List.filter_eq_self.2 ?_
    intro entry hentry
    exact decide_eq_true (hmem _ (List.mem_map_of_mem hentry))
  rw [hall] at hperm
  rw [hfilter]
  exact (hperm.flatMap_right fun entry => entry.2.sectors).symm

/-! ### Carrying staged writes out -/

section Flush

variable {inUse : SectorMap} {staging : Staging} {old others claimed freed new : List Nat}
  {writes : List Write}

/-- What an owner of the sectors `old` then has, what is cleared and what others have is told apart. -/
theorem nodup_of_account (hnodup : (old ++ others).Nodup)
    (hinUse : ∀ sector ∈ old ++ others, inUse[sector]? = some true)
    (haccount : Staging.Account { inUse := inUse } old claimed freed writes staging new) :
    ((new ++ freed) ++ others).Nodup := by
  refine (haccount.perm.append_right _).nodup_iff.2 ?_
  have hsum : (claimed ++ (old ++ others)).Nodup := by
    rw [List.nodup_append]
    refine ⟨haccount.taken.nodup, hnodup, ?_⟩
    rintro sector hin other hother rfl
    have hfree := haccount.taken.free sector hin
    rw [hinUse sector hother] at hfree
    cases hfree
  rw [List.append_assoc]
  exact (List.perm_append_comm_assoc _ _ _).nodup hsum

/-- No sector is written twice. -/
theorem nodup_writes_of_account (hnodup : (old ++ others).Nodup)
    (hinUse : ∀ sector ∈ old ++ others, inUse[sector]? = some true)
    (haccount : Staging.Account { inUse := inUse } old claimed freed writes staging new) :
    (writes.map Write.sector).Nodup := by
  obtain ⟨l, hl, hsub⟩ := haccount.subperm
  exact hl.nodup ((List.nodup_append.1 (nodup_of_account hnodup hinUse haccount)).1.sublist hsub)

/-- Whether a sector is then in use: not if it was cleared, and otherwise as it was, or as it was
taken. -/
theorem getElem?_inUse_flush (s : Store)
    (haccount : Staging.Account { inUse := inUse } old claimed freed writes staging new)
    (sector : Nat) :
    (s.flush staging).1.inUse[sector]? =
      if (sector ∈ freed ∧ ∀ f ∈ (s.flush staging).2, f.write.sector ≠ sector) ∧
          sector < staging.inUse.length then some false
      else if sector ∈ claimed then some true else inUse[sector]? := by
  have hfreed : staging.freed = freed := haccount.freed_eq
  rw [← haccount.taken.getElem?, flush]
  dsimp only
  rw [SectorMap.getElem?_release, hfreed]
  refine if_congr (and_congr_left' ?_) rfl rfl
  rw [List.mem_filter, Bool.not_eq_true', List.any_eq_false]
  simp only [decide_eq_true_eq]

/-- **What carrying staged writes out does**, for an owner of the sectors `old` who then has `new`.
Sectors stay told apart and in use, and those of others read as before; what was written reads back,
unless the attempt failed. -/
theorem flush_spec (s : Store) (hnodup : (old ++ others).Nodup)
    (hinUse : ∀ sector ∈ old ++ others, inUse[sector]? = some true)
    (haccount : Staging.Account { inUse := inUse } old claimed freed writes staging new) :
    (new ++ others).Nodup ∧
      (∀ sector ∈ new ++ others, (s.flush staging).1.inUse[sector]? = some true) ∧
      (∀ sector ∈ others, (s.flush staging).1.device.medium.read sector =
        s.device.medium.read sector) ∧
      ∀ w ∈ writes, (∀ f ∈ (s.flush staging).2, f.write ≠ w) →
        (s.flush staging).1.device.medium.read w.sector = .ok w.content := by
  have hdistinct := nodup_of_account hnodup hinUse haccount
  have hwritesNodup := nodup_writes_of_account hnodup hinUse haccount
  obtain ⟨hown, hothers, hapart⟩ := List.nodup_append.1 hdistinct
  have hwritesIn : ∀ w ∈ writes, w.sector ∉ others := by
    intro w hw hin
    have hmem := haccount.subperm.subset (List.mem_map_of_mem (f := Write.sector) hw)
    exact hapart _ hmem _ hin rfl
  have hstaged : staging.writes = writes := haccount.writes_eq
  refine ⟨?_, ?_, ?_, ?_⟩
  · refine hdistinct.sublist ?_
    exact List.Sublist.append (List.sublist_append_left _ _) (List.Sublist.refl _)
  · intro sector hsector
    -- what stays with an owner is not given up
    have hnotFreed : sector ∉ freed := by
      intro hin
      rcases List.mem_append.1 hsector with hp | ho
      · exact (List.nodup_append.1 hown).2.2 _ hp _ hin rfl
      · exact hapart _ (List.mem_append_right _ hin) _ ho rfl
    rw [s.getElem?_inUse_flush haccount, if_neg fun hcleared => hnotFreed hcleared.1.1]
    split
    · rfl
    · rename_i hnotClaimed
      refine hinUse sector ?_
      rcases List.mem_append.1 hsector with hp | ho
      · have hin := haccount.perm.mem_iff.1 (List.mem_append_left _ hp)
        rcases List.mem_append.1 hin with hold | hclaimed
        · exact List.mem_append_left _ hold
        · exact absurd hclaimed hnotClaimed
      · exact List.mem_append_right _ ho
  · intro sector hsector
    refine read_write_of_notMem ?_
    rw [hstaged]
    intro hin
    obtain ⟨w, hw, rfl⟩ := List.mem_map.1 hin
    exact hwritesIn w hw hsector
  · intro w hw hok
    have hread := @read_write_of_mem s.device _ hwritesNodup w hw
    rw [← hstaged] at hread
    exact hread hok

end Flush

/-- The same for a file set that then has the sectors of `p`. -/
theorem flush_account {s : Store} {name : SetName} {p : Option Placement} {staging : Staging}
    {claimed freed : List Nat} {writes : List Write} (hnames : (s.placed.map Prod.fst).Nodup)
    (hnodup : s.owned.Nodup) (hinUse : ∀ sector ∈ s.owned, s.inUse[sector]? = some true)
    (haccount : Staging.Account { inUse := s.inUse } (s.placement name).sectors claimed freed writes
      staging (p.toList.flatMap Placement.sectors)) :
    ((s.place name p).flush staging).1.owned.Nodup ∧
      (∀ sector ∈ ((s.place name p).flush staging).1.owned,
        ((s.place name p).flush staging).1.inUse[sector]? = some true) ∧
      (∀ sector ∈ s.others name, ((s.place name p).flush staging).1.device.medium.read sector =
        s.device.medium.read sector) ∧
      ∀ w ∈ writes, (∀ f ∈ ((s.place name p).flush staging).2, f.write ≠ w) →
        ((s.place name p).flush staging).1.device.medium.read w.sector = .ok w.content := by
  have hperm := perm_owned hnames name
  have howned : ((s.place name p).flush staging).1.owned =
      p.toList.flatMap Placement.sectors ++ s.others name := owned_place s name p
  rw [howned]
  refine flush_spec (s.place name p) (hperm.nodup_iff.1 hnodup) ?_ haccount
  intro sector hsector
  exact hinUse sector (hperm.mem_iff.2 hsector)

/-! ### Cycles that are on the medium -/

/-- The records of a cycle of a file set are on the medium: its lead item has a sector, the cycle has
as many as its records take, and they hold the current records. -/
structure Recorded (s : Store) (set : FileSet) (c : FileCycle) : Prop where
  lead : ∃ sector, (s.placement set.name).lead = some sector ∧
    s.device.medium.read sector = .ok (set.lead.record set.currentRange set.cycleCount)
  records : ∃ sectors, (s.placement set.name).cycles.lookup c.file = some sectors ∧
    sectors.length = 2 + (c.item.table.extents.length + 6) / 7 ∧
    sectors.map s.device.medium.read = (s.shown c).records.map .ok

/-- The sectors of file sets are told apart and in use, each cycle of the catalog has an entry for
its sectors, and a cycle that shows no directory error is on the medium. -/
structure Keeps (c : Catalog) (s : Store) : Prop where
  length_inUse : s.inUse.length = s.device.sectorCount
  nodup_names : (s.placed.map Prod.fst).Nodup
  names : ∀ name, name ∈ s.placed.map Prod.fst ↔ ∃ set ∈ c.sets, set.name = name
  nodup_owned : s.owned.Nodup
  inUse_of_owned : ∀ sector ∈ s.owned, s.inUse[sector]? = some true
  files : ∀ set ∈ c.sets, (s.placement set.name).cycles.map Prod.fst = set.files
  /-- Without a sector for the lead item there are none for the cycles. -/
  headless : ∀ name, (s.placement name).lead = none →
    ∀ entry ∈ (s.placement name).cycles, entry.2 = []
  recorded : ∀ set ∈ c.sets, ∀ d ∈ set.cycles, (s.shown d).disable.directoryError = false →
    s.Recorded set d

theorem placement_of_notMem {s : Store} {name : SetName} (h : name ∉ s.placed.map Prod.fst) :
    s.placement name = {} := by
  have hnone : s.placed.lookup name = none := by
    rw [List.lookup_eq_none_iff]
    intro entry hentry
    have hne : name ≠ entry.1 := by
      rintro rfl
      exact h (List.mem_map_of_mem hentry)
    simpa using hne
  rw [placement, hnone, Option.getD_none]

/-- A name has the sectors of the file set of that name, or none. -/
theorem Keeps.placement_cases {c : Catalog} {s : Store} (h : Keeps c s) (name : SetName) :
    (∃ set ∈ c.sets, set.name = name ∧ (s.placement name).cycles.map Prod.fst = set.files) ∨
      (s.placement name = {} ∧ ∀ set ∈ c.sets, set.name ≠ name) := by
  by_cases hin : name ∈ s.placed.map Prod.fst
  · obtain ⟨set, hset, rfl⟩ := (h.names name).1 hin
    exact Or.inl ⟨set, hset, rfl, h.files set hset⟩
  · refine Or.inr ⟨placement_of_notMem hin, ?_⟩
    intro set hset hname
    exact hin ((h.names name).2 ⟨set, hset, hname⟩)

theorem Keeps.nodup_placement {c : Catalog} {s : Store} (h : Keeps c s) (hc : c.Indexed)
    (name : SetName) : ((s.placement name).cycles.map Prod.fst).Nodup := by
  rcases h.placement_cases name with ⟨set, hset, -, hfiles⟩ | ⟨hnone, -⟩
  · rw [hfiles]
    exact hc.nodup set hset
  · rw [hnone]
    exact List.nodup_nil

/-- The account of a file set, or of its absence, in a catalog. -/
theorem Keeps.account {c c' : Catalog} {s : Store} (h : Keeps c s) (hc : c.Indexed)
    (hc' : c'.Indexed) (name : SetName) :
    ∃ claimed freed writes,
      Staging.Account { inUse := s.inUse } (s.placement name).sectors claimed freed writes
        (s.stage name (c'.find? name)).2
        ((s.stage name (c'.find? name)).1.toList.flatMap Placement.sectors) := by
  cases hfind : c'.find? name with
  | none =>
      obtain ⟨freed, writes, hstage, haccount, -⟩ := account_stage_none s name
      rw [hstage]
      exact ⟨_, _, _, haccount⟩
  | some set =>
      obtain ⟨hset, rfl⟩ := (Catalog.find?_eq_some_iff hc'.ordered).1 hfind
      obtain ⟨p', claimed, freed, writes, hstage, haccount, -⟩ :=
        account_stage s (hc'.nodup set hset) (h.nodup_placement hc set.name)
      rw [hstage, Option.toList_some, List.flatMap_singleton]
      exact ⟨_, _, _, haccount⟩

/-- Staged writes are for sectors that there are. -/
theorem Keeps.sector_lt {c c' : Catalog} {s : Store} (h : Keeps c s) (hc : c.Indexed)
    (hc' : c'.Indexed) (name : SetName) :
    ∀ w ∈ (s.stage name (c'.find? name)).2.writes, w.sector < s.device.sectorCount := by
  obtain ⟨claimed, freed, writes, haccount⟩ := h.account hc hc' name
  intro w hw
  rw [haccount.writes_eq, List.nil_append] at hw
  have hin := haccount.perm.mem_iff.1
    (haccount.subperm.subset (List.mem_map_of_mem (f := Write.sector) hw))
  rw [← h.length_inUse]
  rcases List.mem_append.1 hin with hold | hclaimed
  · have howned : w.sector ∈ s.owned := (perm_owned h.nodup_names name).mem_iff.2
      (List.mem_append_left _ hold)
    exact (List.getElem?_eq_some_iff.1 (h.inUse_of_owned _ howned)).1
  · exact (List.getElem?_eq_some_iff.1 (haccount.taken.free _ hclaimed)).1

/-! ### Recording a file set -/

/-- Nothing is reported exactly if no write failed and there was space. -/
theorem report_eq_none {failures : List WriteFailure} {shortages : List Failure} :
    report failures shortages = none ↔ failures = [] ∧ shortages = [] := by
  cases failures with
  | nil => simp [report]
  | cons f failures => simp [report]

theorem placement_record_of_ne (s : Store) (set? : Option FileSet) {name other : SetName}
    (h : other ≠ name) : (s.record name set?).1.placement other = s.placement other :=
  placement_place_of_ne s _ h

theorem placement_record_self {s : Store} {name : SetName} {set? : Option FileSet} {p : Placement}
    (h : (s.stage name set?).1 = some p) : (s.record name set?).1.placement name = p := by
  have hplace := placement_place_self s name p
  rw [← h] at hplace
  exact hplace

/-- Suspicion is never lifted. -/
theorem suspect_record {s : Store} {name : SetName} {set? : Option FileSet} {file : FileId}
    (h : file ∉ (s.record name set?).1.suspect) : file ∉ s.suspect := fun hin =>
  h (List.mem_append_left _ hin)

theorem suspect_record_some (s : Store) (set : FileSet) :
    (s.record set.name (some set)).1.suspect = s.suspect ++
      ((s.stage set.name (some set)).2.unplaced ++
        doubtful ((s.place set.name (s.stage set.name (some set)).1).flush
          (s.stage set.name (some set)).2).2 set.files).filter fun file =>
            !s.suspect.contains file := by
  have hfiles : ((some set).toList.flatMap fun set => set.cycles.map FileCycle.file) =
      set.files := List.append_nil _
  rw [← hfiles]
  rfl

/-- A cycle that is not suspect afterwards had space, and no write failed that it depends on. -/
theorem of_notMem_suspect_record {s : Store} {set : FileSet} {file : FileId}
    (hfile : file ∈ set.files) (h : file ∉ (s.record set.name (some set)).1.suspect) :
    file ∉ (s.stage set.name (some set)).2.unplaced ∧
      ∀ f ∈ ((s.place set.name (s.stage set.name (some set)).1).flush
        (s.stage set.name (some set)).2).2, f.write.file ≠ none ∧ f.write.file ≠ some file := by
  have hold := suspect_record h
  have hdoubts : file ∉ (s.stage set.name (some set)).2.unplaced ++
      doubtful ((s.place set.name (s.stage set.name (some set)).1).flush
        (s.stage set.name (some set)).2).2 set.files := by
    intro hin
    rw [suspect_record_some] at h
    refine h (List.mem_append_right _ (List.mem_filter.2 ⟨hin, ?_⟩))
    simpa using hold
  rw [List.mem_append, not_or] at hdoubts
  refine ⟨hdoubts.1, ?_⟩
  intro f hf
  rw [← not_or]
  intro hbad
  refine hdoubts.2 (List.mem_filter.2 ⟨hfile, ?_⟩)
  rw [List.any_eq_true]
  exact ⟨f, hf, by simpa using hbad⟩

/-- A cycle that shows no directory error is not suspect and shows as it is. -/
theorem shown_of_sound {s : Store} {c : FileCycle}
    (h : (s.shown c).disable.directoryError = false) : c.file ∉ s.suspect ∧ s.shown c = c.item := by
  have hor : c.item.disable.directoryError = false ∧ c.file ∉ s.suspect := by
    simpa [shown] using h
  refine ⟨hor.2, ?_⟩
  have hsame : (c.item.disable.directoryError || s.suspect.contains c.file) =
      c.item.disable.directoryError := by simp [hor.2]
  unfold shown
  rw [hsame]

/-- Without a suspicion every cycle is shown as it is. -/
theorem shown_of_suspect_eq_nil {s : Store} (h : s.suspect = []) (c : FileCycle) :
    s.shown c = c.item := by
  unfold shown
  rw [h, List.contains_nil, Bool.or_false]

theorem shown_record {s : Store} {name : SetName} {set? : Option FileSet} {c : FileCycle}
    (h : ((s.record name set?).1.shown c).disable.directoryError = false) :
    (s.shown c).disable.directoryError = false ∧
      s.shown c = (s.record name set?).1.shown c := by
  obtain ⟨hnot, hitem⟩ := shown_of_sound h
  have hold : c.file ∉ s.suspect := suspect_record hnot
  have hshown : s.shown c = c.item := by
    unfold shown
    simp [hold]
  rw [hshown, hitem]
  rw [hitem] at h
  exact ⟨h, rfl⟩

/-- The names that have sectors once one was given some, or none. -/
theorem mem_names_place (s : Store) (name other : SetName) (p : Option Placement) :
    other ∈ (s.place name p).placed.map Prod.fst ↔
      (other = name ∧ p ≠ none) ∨ other ∈ s.placed.map Prod.fst ∧ other ≠ name := by
  unfold place
  rw [List.map_append, List.mem_append]
  refine or_congr ?_ ?_
  · cases p <;> simp
  · rw [List.mem_map, List.mem_map]
    constructor
    · rintro ⟨entry, hentry, rfl⟩
      obtain ⟨hin, hne⟩ := List.mem_filter.1 hentry
      exact ⟨⟨entry, hin, rfl⟩, by simpa using hne⟩
    · rintro ⟨⟨entry, hin, rfl⟩, hne⟩
      exact ⟨entry, List.mem_filter.2 ⟨hin, by simpa using hne⟩, rfl⟩

theorem nodup_names_place {s : Store} (h : (s.placed.map Prod.fst).Nodup) (name : SetName)
    (p : Option Placement) : ((s.place name p).placed.map Prod.fst).Nodup := by
  have hrest : ((s.placed.filter fun entry => entry.1 ≠ name).map Prod.fst).Nodup :=
    h.sublist (List.filter_sublist.map Prod.fst)
  have hout : name ∉ (s.placed.filter fun entry => entry.1 ≠ name).map Prod.fst := by
    intro hin
    obtain ⟨entry, hentry, rfl⟩ := List.mem_map.1 hin
    simpa using (List.mem_filter.1 hentry).2
  unfold place
  rw [List.map_append]
  cases p with
  | none => exact hrest
  | some p => exact List.nodup_cons.2 ⟨hout, hrest⟩

/-- The sectors of a file set of another name are among those of others. -/
theorem sectors_subset_others {s : Store} {name other : SetName} (hne : other ≠ name) :
    ∀ sector ∈ (s.placement other).sectors, sector ∈ s.others name := by
  intro sector hsector
  unfold placement at hsector
  cases hlookup : s.placed.lookup other with
  | none =>
      rw [hlookup] at hsector
      cases hsector
  | some p =>
      rw [hlookup, Option.getD_some] at hsector
      obtain ⟨l₁, l₂, heq, -⟩ := List.lookup_eq_some_iff.1 hlookup
      refine List.mem_flatMap.2 ⟨(other, p), List.mem_filter.2 ⟨?_, by simpa using hne⟩, hsector⟩
      rw [heq]
      exact List.mem_append_right _ List.mem_cons_self

theorem mem_sectors_of_lookup {p : Placement} {file : FileId} {sectors : List Nat}
    (h : p.cycles.lookup file = some sectors) : ∀ sector ∈ sectors, sector ∈ p.sectors := by
  intro sector hsector
  obtain ⟨l₁, l₂, heq, -⟩ := List.lookup_eq_some_iff.1 h
  refine List.mem_append_right _ (List.mem_flatMap.2 ⟨(file, sectors), ?_, hsector⟩)
  rw [heq]
  exact List.mem_append_right _ List.mem_cons_self

theorem mem_sectors_of_lead {p : Placement} {sector : Nat} (h : p.lead = some sector) :
    sector ∈ p.sectors := by
  refine List.mem_append_left _ ?_
  rw [h]
  exact List.mem_singleton_self sector

/-- What is recorded stays recorded while its sectors read as they did. -/
theorem Recorded.congr {s t : Store} {set : FileSet} {c : FileCycle} (h : s.Recorded set c)
    (hplacement : t.placement set.name = s.placement set.name)
    (hread : ∀ sector ∈ (s.placement set.name).sectors,
      t.device.medium.read sector = s.device.medium.read sector)
    (hshown : s.shown c = t.shown c) : t.Recorded set c := by
  obtain ⟨⟨lead, hlead, hleadRead⟩, sectors, hlookup, hlength, hsectors⟩ := h
  refine ⟨⟨lead, ?_, ?_⟩, sectors, ?_, hlength, ?_⟩
  · rw [hplacement, hlead]
  · rw [hread lead (mem_sectors_of_lead hlead), hleadRead]
  · rw [hplacement, hlookup]
  · rw [← hshown, ← hsectors]
    refine List.map_congr_left ?_
    intro sector hsector
    exact hread sector (mem_sectors_of_lookup hlookup sector hsector)

/-- A cycle is recorded once its records and the lead record read back. -/
theorem recorded_of_read {t : Store} {set : FileSet} {c : FileCycle} {l : Nat} {sectors : List Nat}
    (hcycles : ((t.placement set.name).cycles.map Prod.fst).Nodup)
    (hlead : (t.placement set.name).lead = some l)
    (hleadRead : t.device.medium.read l =
      .ok (set.lead.record set.currentRange set.cycleCount))
    (hin : (c.file, sectors) ∈ (t.placement set.name).cycles)
    (hlength : sectors.length = (t.shown c).sectorsNeeded)
    (hread : ∀ w ∈ Staging.recording c.file (t.shown c) sectors,
      t.device.medium.read w.sector = .ok w.content) : t.Recorded set c := by
  refine ⟨⟨l, hlead, hleadRead⟩, sectors, (lookup_eq_some_iff hcycles).2 hin, hlength, ?_⟩
  refine List.ext_getElem ?_ ?_
  · rw [List.length_map, List.length_map, MainItem.length_records, hlength]
  · intro i hi₁ hi₂
    rw [List.getElem_map, List.getElem_map]
    rw [List.length_map] at hi₁ hi₂
    refine hread ⟨sectors[i], (t.shown c).records[i], some c.file⟩ ?_
    refine List.mem_map.2 ⟨(sectors[i], (t.shown c).records[i]), ?_, rfl⟩
    refine List.mem_iff_getElem.2 ⟨i, ?_, ?_⟩
    · rw [List.length_zip]
      exact Nat.lt_min.2 ⟨hi₁, hi₂⟩
    · rw [List.getElem_zip]

/-- A file set has been staged, to the sectors of `p`, and `writes` has what was to be written, each of
which reads back unless it failed. -/
structure Entered (s : Store) (set : FileSet) (p : Placement) (writes : List Write) : Prop where
  files : set.files.Nodup
  stage : (s.stage set.name (some set)).1 = some p
  staged : SetStaged s set (s.placement set.name) { inUse := s.inUse }
    (s.stage set.name (some set)).2 p writes
  headless : (s.placement set.name).lead = none →
    ∀ file, (s.placement set.name).sectorsOf file = []
  read : ∀ w ∈ writes,
    (∀ f ∈ ((s.place set.name (s.stage set.name (some set)).1).flush
      (s.stage set.name (some set)).2).2, f.write ≠ w) →
    (s.record set.name (some set)).1.device.medium.read w.sector = .ok w.content

section Entered

variable {s : Store} {set : FileSet} {p : Placement} {writes : List Write} {c : FileCycle}

/-- The records of a cycle are on the medium if there was space for them and no write failed that it
depends on. -/
theorem Entered.recorded_of_placed (h : Entered s set p writes) (hc : c ∈ set.cycles)
    (hshown : s.shown c = (s.record set.name (some set)).1.shown c)
    (hplaced : c.file ∉ (s.stage set.name (some set)).2.unplaced)
    (hfailures : ∀ f ∈ ((s.place set.name (s.stage set.name (some set)).1).flush
      (s.stage set.name (some set)).2).2, f.write.file ≠ none ∧ f.write.file ≠ some c.file) :
    (s.record set.name (some set)).1.Recorded set c := by
  obtain ⟨hfiles, hstage, hstaged, hheadless, hread⟩ := h
  obtain ⟨sectors, hin, hlength, hwrites⟩ := (hstaged.records c hc).resolve_left hplaced
  have hfirst : ((s.record set.name (some set)).1.placement set.name) = p :=
    placement_record_self hstage
  have hcycles : (p.cycles.map Prod.fst).Nodup := by rwa [hstaged.files]
  have hneeded : sectors.length = 2 + (c.item.table.extents.length + 6) / 7 := hlength
  -- a cycle that has sectors is in a set that has one for its lead item
  have hlead : ∃ l, p.lead = some l ∧ Staging.leadWrite set l ∈ writes := by
    rcases hstaged.lead with hlead | ⟨hnone, hold⟩
    · exact hlead
    · have hempty := hstaged.headless hnone (fun file _ => hheadless hold file) _ hin
      dsimp only at hempty
      rw [hempty, List.length_nil] at hneeded
      omega
  obtain ⟨l, hl, hleadWrite⟩ := hlead
  rw [hshown] at hlength hwrites
  refine recorded_of_read (l := l) ?_ ?_ ?_ ?_ hlength ?_
  · rwa [hfirst]
  · rw [hfirst, hl]
  · refine hread _ hleadWrite ?_
    intro f hf heq
    exact (hfailures f hf).1 (congrArg Write.file heq)
  · rwa [hfirst]
  · intro w hw
    refine hread w (hwrites w hw) ?_
    intro f hf heq
    obtain ⟨part, -, rfl⟩ := List.mem_map.1 hw
    exact (hfailures f hf).2 (congrArg Write.file heq)

/-- They are for each cycle that is not suspect afterwards. -/
theorem Entered.recorded (h : Entered s set p writes) (hc : c ∈ set.cycles)
    (hflag : ((s.record set.name (some set)).1.shown c).disable.directoryError = false) :
    (s.record set.name (some set)).1.Recorded set c := by
  obtain ⟨hplaced, hfailures⟩ :=
    of_notMem_suspect_record (List.mem_map_of_mem hc) (shown_of_sound hflag).1
  exact h.recorded_of_placed hc (shown_record hflag).2 hplaced hfailures

/-- If nothing went wrong, they are for every cycle, suspect or not. -/
theorem Entered.recorded_of_quiet (h : Entered s set p writes) (hc : c ∈ set.cycles)
    (hquiet : (s.record set.name (some set)).2 = none) :
    (s.record set.name (some set)).1.Recorded set c := by
  have hfailures : ((s.place set.name (s.stage set.name (some set)).1).flush
      (s.stage set.name (some set)).2).2 = [] := (report_eq_none.1 hquiet).1
  have hunplaced : (s.stage set.name (some set)).2.unplaced = [] :=
    ((h.staged.placed (report_eq_none.1 hquiet).2).2 rfl).1
  refine h.recorded_of_placed hc ?_ ?_ ?_
  · have hsuspect : (s.record set.name (some set)).1.suspect = s.suspect := by
      rw [suspect_record_some, hfailures, hunplaced]
      simp [doubtful]
    unfold shown
    rw [hsuspect]
  · rw [hunplaced]
    exact List.not_mem_nil
  · rw [hfailures]
    exact fun f hf => absurd hf List.not_mem_nil

end Entered

/-- The set of a name is entered when it is recorded. -/
theorem Keeps.entered {c c' : Catalog} {s : Store} (h : Keeps c s) (hc : c.Indexed)
    (hc' : c'.Indexed) {set : FileSet} (hset : set ∈ c'.sets) :
    ∃ p claimed freed writes,
      Staging.Account { inUse := s.inUse } (s.placement set.name).sectors claimed freed writes
        (s.stage set.name (some set)).2
        ((s.stage set.name (some set)).1.toList.flatMap Placement.sectors) ∧
      Entered s set p writes := by
  have hplaced := h.nodup_placement hc set.name
  obtain ⟨p, claimed, freed, writes, hstage, haccount, hstaged⟩ :=
    account_stage s (hc'.nodup set hset) hplaced
  have hsectors : (s.stage set.name (some set)).1.toList.flatMap Placement.sectors = p.sectors := by
    rw [hstage, Option.toList_some, List.flatMap_singleton]
  rw [← hsectors] at haccount
  obtain ⟨-, -, -, hread⟩ := flush_account h.nodup_names h.nodup_owned h.inUse_of_owned haccount
  refine ⟨p, claimed, freed, writes, haccount, hc'.nodup set hset, hstage, hstaged, ?_, hread⟩
  intro hnone file
  unfold Placement.sectorsOf
  cases hlookup : (s.placement set.name).cycles.lookup file with
  | none => rfl
  | some sectors =>
      exact h.headless set.name hnone _ ((lookup_eq_some_iff hplaced).1 hlookup)

/-- What recording a file set, or its absence, keeps up whichever of the two it is. -/
theorem Keeps.record_of_account {c c' : Catalog} {s : Store} (h : Keeps c s) {name : SetName}
    {set? : Option FileSet} {claimed freed : List Nat} {writes : List Write}
    (hframe : ∀ t : FileSet, t.name ≠ name → (t ∈ c'.sets ↔ t ∈ c.sets))
    (haccount : Staging.Account { inUse := s.inUse } (s.placement name).sectors claimed freed writes
      (s.stage name set?).2 ((s.stage name set?).1.toList.flatMap Placement.sectors))
    (hsome : (s.stage name set?).1 ≠ none ↔ ∃ set ∈ c'.sets, set.name = name)
    (hself : ∀ set ∈ c'.sets, set.name = name →
      ((s.record name set?).1.placement name).cycles.map Prod.fst = set.files ∧
        ∀ d ∈ set.cycles, ((s.record name set?).1.shown d).disable.directoryError = false →
          (s.record name set?).1.Recorded set d)
    (hheadless : ((s.record name set?).1.placement name).lead = none →
      ∀ entry ∈ ((s.record name set?).1.placement name).cycles, entry.2 = []) :
    Keeps c' (s.record name set?).1 := by
  obtain ⟨hnodup, hinUse, hothers, -⟩ :=
    flush_account h.nodup_names h.nodup_owned h.inUse_of_owned haccount
  constructor
  case length_inUse =>
    have hlength : (s.record name set?).1.inUse.length = s.inUse.length :=
      (SectorMap.length_release _ _).trans haccount.taken.length_eq
    have hcount : (s.record name set?).1.device.sectorCount = s.device.sectorCount :=
      sectorCount_write s.device (s.stage name set?).2.writes
    rw [hlength, hcount, h.length_inUse]
  case nodup_names =>
    exact nodup_names_place h.nodup_names name (s.stage name set?).1
  case names =>
    intro other
    refine (mem_names_place s name other (s.stage name set?).1).trans ?_
    by_cases heq : other = name
    · subst heq
      simp [hsome]
    · rw [h.names]
      constructor
      · rintro (⟨hbad, -⟩ | ⟨⟨set, hset, rfl⟩, -⟩)
        · exact absurd hbad heq
        · exact ⟨set, (hframe set heq).2 hset, rfl⟩
      · rintro ⟨set, hset, rfl⟩
        exact Or.inr ⟨⟨set, (hframe set heq).1 hset, rfl⟩, heq⟩
  case nodup_owned => exact hnodup
  case inUse_of_owned => exact hinUse
  case files =>
    intro set hset
    by_cases heq : set.name = name
    · rw [heq]
      exact (hself set hset heq).1
    · rw [placement_record_of_ne s set? heq]
      exact h.files set ((hframe set heq).1 hset)
  case headless =>
    intro other
    by_cases heq : other = name
    · rw [heq]
      exact hheadless
    · rw [placement_record_of_ne s set? heq]
      exact h.headless other
  case recorded =>
    intro set hset d hd hflag
    by_cases heq : set.name = name
    · exact (hself set hset heq).2 d hd hflag
    · -- the records of the other sets read as before
      obtain ⟨hold, hshown⟩ := shown_record hflag
      refine (h.recorded set ((hframe set heq).1 hset) d hd hold).congr
        (placement_record_of_ne s set? heq) ?_ hshown
      intro sector hsector
      exact hothers sector (sectors_subset_others heq sector hsector)

/-- **Recording the set of a name anew, or its absence, keeps the other sets as they are** and each
cycle that shows no directory error on the medium. -/
theorem Keeps.record {c c' : Catalog} {s : Store} (h : Keeps c s) (hc : c.Indexed)
    (hc' : c'.Indexed) {name : SetName}
    (hframe : ∀ t : FileSet, t.name ≠ name → (t ∈ c'.sets ↔ t ∈ c.sets)) :
    Keeps c' (s.record name (c'.find? name)).1 := by
  cases hfind : c'.find? name with
  | none =>
      have hgone := Catalog.find?_eq_none_iff.1 hfind
      obtain ⟨freed, writes, hstage, haccount, -, -⟩ := account_stage_none s name
      -- the name loses its sectors
      have hplacement : (s.record name none).1.placement name = {} := by
        refine placement_of_notMem ?_
        intro hin
        rcases (mem_names_place s name name (s.stage name none).1).1 hin with ⟨-, hne⟩ | ⟨-, hne⟩
        · exact hne hstage
        · exact hne rfl
      refine h.record_of_account hframe
        (show Staging.Account _ _ [] freed writes _ _ from ?_) ?_ ?_ ?_
      · rw [hstage]
        exact haccount
      · refine ⟨fun hne => absurd hstage hne, ?_⟩
        rintro ⟨set, hset, hname⟩
        exact absurd hname (hgone set hset)
      · intro set hset hname
        exact absurd hname (hgone set hset)
      · rw [hplacement]
        intro _ entry hentry
        cases hentry
  | some set =>
      obtain ⟨hset, rfl⟩ := (Catalog.find?_eq_some_iff hc'.ordered).1 hfind
      obtain ⟨p, claimed, freed, writes, haccount, hentered⟩ := h.entered hc hc' hset
      refine h.record_of_account hframe haccount ?_ ?_ ?_
      · rw [hentered.stage]
        exact ⟨fun _ => ⟨set, hset, rfl⟩, fun _ => Option.some_ne_none p⟩
      · intro other hother hname
        obtain rfl : other = set := hc'.ordered.eq_of_name_eq hother hset hname
        refine ⟨?_, fun d hd => hentered.recorded hd⟩
        rw [placement_record_self hentered.stage]
        exact hentered.staged.files
      · rw [placement_record_self hentered.stage]
        intro hnone
        refine hentered.staged.headless hnone ?_
        intro file _
        rcases hentered.staged.lead with ⟨l, hl, -⟩ | ⟨-, hold⟩
        · rw [hl] at hnone
          cases hnone
        · exact hentered.headless hold file

end FileDirectory.Store
