/-
**A recovered directory is on its medium.**

The catalog that recovery builds has its cycles told apart, and once recovery has written the records
again without a failure, every recovered cycle is on the medium: a recovered directory starts out as
a running one goes on.

Main results:

* `FileDirectory.Recovery.indexed_rebuild` — recovered cycles are told apart;
* `FileDirectory.Recovery.account_rewrite` — what writing the records again comes to;
* `FileDirectory.Recovery.recorded_rewrite` — without a failure it puts every cycle on the medium;
* `FileDirectory.Directory.recover_of_rebuild` — recovery once the catalog has been rebuilt;
* `FileDirectory.Directory.keeps_recover` — recovered cycles are on the medium;
* `FileDirectory.Directory.kind_of_recover_error` — what recovery fails with.
-/

import FileDirectory.Proofs.Recovery.Rebuilt
import FileDirectory.Proofs.Store.Recorded
import Mathlib.Data.List.Pairwise

set_option autoImplicit false

namespace FileDirectory.Recovery

/-! ### The recovered catalog -/

theorem files_of_numbered (last : Nat) (items : List Placed) :
    (numbered last items).map Prod.fst = (List.range' (last + 1) items.length).map FileId.mk := by
  induction items generalizing last with
  | nil => rfl
  | cons p items ih =>
      rw [numbered, List.map_cons, ih, List.length_cons, List.range'_succ, List.map_cons]

theorem files_recoveredSet (last : Nat) (cycles : List Placed) (lead : LeadItem × Nat) :
    (recoveredSet last cycles lead).1.files = (numbered last cycles).map Prod.fst := by
  rw [recoveredSet, FileSet.files_refresh, FileSet.files, List.map_map]
  rfl

theorem placed_recoveredSet (last : Nat) (cycles : List Placed) (lead : LeadItem × Nat) :
    (recoveredSet last cycles lead).2.cycles.map Prod.fst =
      (recoveredSet last cycles lead).1.files := by
  rw [files_recoveredSet, recoveredSet, List.map_map]
  rfl

theorem mem_recoveredSets {items : List Placed} {last : Nat} {leads : List (LeadItem × Nat)}
    {found : FileSet × Placement} (h : found ∈ recoveredSets items last leads) :
    ∃ lead ∈ leads, ∃ n, survivors items lead ≠ [] ∧
      found = recoveredSet n (survivors items lead) lead := by
  induction leads generalizing last with
  | nil => cases h
  | cons lead leads ih =>
      rw [recoveredSets] at h
      split at h
      · obtain ⟨other, hother, hrest⟩ := ih h
        exact ⟨other, List.mem_cons_of_mem _ hother, hrest⟩
      · rename_i hne
        rcases List.mem_cons.1 h with rfl | h
        · exact ⟨lead, List.mem_cons_self, last, hne, rfl⟩
        · obtain ⟨other, hother, hrest⟩ := ih h
          exact ⟨other, List.mem_cons_of_mem _ hother, hrest⟩

/-- The recovered sets come in the order of the lead items. -/
theorem names_recoveredSets (items : List Placed) (last : Nat) (leads : List (LeadItem × Nat)) :
    ((recoveredSets items last leads).map fun found => found.1.name).Sublist
      (leads.map fun lead => lead.1.name) := by
  induction leads generalizing last with
  | nil => exact List.Sublist.refl _
  | cons lead leads ih =>
      rw [recoveredSets]
      split
      · exact (ih last).cons _
      · exact (ih _).cons_cons _

/-- The recovered cycles have the identifiers after the last one, in their order. -/
theorem files_recoveredSets (items : List Placed) (last : Nat) (leads : List (LeadItem × Nat)) :
    (recoveredSets items last leads).flatMap (fun found => found.1.files) =
      (List.range' (last + 1) (leads.flatMap (survivors items)).length).map FileId.mk := by
  induction leads generalizing last with
  | nil => rfl
  | cons lead leads ih =>
      rw [recoveredSets, List.flatMap_cons, List.length_append]
      split
      · rename_i hnone
        rw [hnone, List.length_nil, Nat.zero_add]
        exact ih last
      · rw [List.flatMap_cons, files_recoveredSet, files_of_numbered, ih, ← List.map_append]
        congr 1
        rw [← List.range'_append_1, Nat.add_right_comm]

theorem nodup_files_recoveredSets (items : List Placed) (last : Nat)
    (leads : List (LeadItem × Nat)) :
    ((recoveredSets items last leads).flatMap fun found => found.1.files).Nodup := by
  rw [files_recoveredSets]
  refine List.Nodup.map ?_ List.nodup_range'
  intro a b heq
  exact congrArg FileId.number heq

theorem ordered_recoveredSets {found : List Found} (hdistinct : Distinct found)
    (items : List Placed) (last : Nat) :
    Catalog.Ordered ((recoveredSets items last (leads found)).map Prod.fst) := by
  unfold Catalog.Ordered
  have hnames : ((leads found).map fun lead => lead.1.name).Pairwise
      fun a b => compare a b = .lt := List.pairwise_map.2 hdistinct.pairwise_leads
  have hsub := hnames.sublist (names_recoveredSets items last (leads found))
  rw [List.pairwise_map] at hsub ⊢
  exact hsub

/-- No file set is recovered without a cycle, and its cycles have its name. -/
theorem cycles_of_mem_recoveredSets {items : List Placed} {last : Nat}
    {leads : List (LeadItem × Nat)} {f : FileSet × Placement} (hf : f ∈ recoveredSets items last leads) :
    f.1.cycles ≠ [] ∧ ∀ cycle ∈ f.1.cycles, cycle.item.key.set = f.1.name := by
  obtain ⟨lead, -, n, hne, rfl⟩ := mem_recoveredSets hf
  have hnumbered := files_numbered n (survivors items lead)
  constructor
  · intro hempty
    have hfiles := files_recoveredSet n (survivors items lead) lead
    rw [FileSet.files, hempty] at hfiles
    rw [List.map_eq_nil_iff.1 hfiles.symm] at hnumbered
    exact hne hnumbered.symm
  · intro cycle hcycle
    obtain ⟨entry, hentry, rfl⟩ := List.mem_map.1 hcycle
    have hin : entry.2 ∈ survivors items lead := by
      rw [← hnumbered]
      exact List.mem_map_of_mem hentry
    have hown := (List.mem_filter.1 (List.mem_filter.1 hin).1).2
    exact of_decide_eq_true hown

/-- **Recovered cycles are told apart.** -/
theorem indexed_rebuild {config : Configuration} {found : List Found} {r : Rebuilt}
    (hdistinct : Distinct found) (h : rebuild config found = .ok r) : r.catalog.Indexed := by
  obtain ⟨items, space, hitems, -, rfl⟩ := rebuild_eq_ok.1 h
  have hsets : (extend items { catalog := Catalog.empty config, cleared := strayBackups found } space
      (leads found)).catalog.sets = (recoveredSets items 0 (leads found)).map Prod.fst := rfl
  obtain ⟨hnodupEach, hdisjoint⟩ :=
    List.nodup_flatMap.1 (nodup_files_recoveredSets items 0 (leads found))
  constructor
  all_goals rw [hsets]
  case ordered => exact ordered_recoveredSets hdistinct items 0
  case nonempty =>
    intro set hset
    obtain ⟨f, hf, rfl⟩ := List.mem_map.1 hset
    exact (cycles_of_mem_recoveredSets hf).1
  case nodup =>
    intro set hset
    obtain ⟨f, hf, rfl⟩ := List.mem_map.1 hset
    exact hnodupEach f hf
  case apart =>
    intro s hs t ht file hfs hft
    obtain ⟨f, hf, rfl⟩ := List.mem_map.1 hs
    obtain ⟨g, hg, rfl⟩ := List.mem_map.1 ht
    by_contra hne
    have hfg : f ≠ g := fun heq => hne (congrArg Prod.fst heq)
    have : Std.Symm (Function.onFun List.Disjoint fun found : FileSet × Placement =>
        found.1.files) := ⟨fun _ _ h a hb ha => h ha hb⟩
    exact hdisjoint.forall hf hg hfg hfs hft
  case le_last =>
    intro set hset file hfile
    obtain ⟨f, hf, rfl⟩ := List.mem_map.1 hset
    have hin : file ∈ (recoveredSets items 0 (leads found)).flatMap fun found => found.1.files :=
      List.mem_flatMap.2 ⟨f, hf, hfile⟩
    rw [files_recoveredSets] at hin
    obtain ⟨n, hn, rfl⟩ := List.mem_map.1 hin
    obtain ⟨i, hi, rfl⟩ := List.mem_range'.1 hn
    show _ ≤ 0 + ((leads found).flatMap (survivors items)).length
    dsimp only
    omega
  case named =>
    intro set hset
    obtain ⟨f, hf, rfl⟩ := List.mem_map.1 hset
    exact (cycles_of_mem_recoveredSets hf).2

/-! ### Writing the records again -/

theorem placement_stageAll_of_notMem (s : Store) (staging : Staging) {sets : List FileSet}
    {name : SetName} (h : name ∉ sets.map FileSet.name) :
    (stageAll s staging sets).1.placement name = s.placement name := by
  induction sets generalizing s staging with
  | nil => rfl
  | cons set sets ih =>
      obtain ⟨hne, hrest⟩ : name ≠ set.name ∧ name ∉ sets.map FileSet.name := by simpa using h
      rw [stageAll, ih _ _ hrest]
      exact Store.placement_place_of_ne s _ hne

/-- Staging file sets changes neither the medium nor what is suspect, and gives sectors to those
sets and to no others. -/
theorem names_stageAll (s : Store) (staging : Staging) (sets : List FileSet) :
    (stageAll s staging sets).1.device = s.device ∧
      (stageAll s staging sets).1.suspect = s.suspect ∧
      ((s.placed.map Prod.fst).Nodup →
        ((stageAll s staging sets).1.placed.map Prod.fst).Nodup) ∧
      ∀ name, name ∈ (stageAll s staging sets).1.placed.map Prod.fst ↔
        name ∈ sets.map FileSet.name ∨ name ∈ s.placed.map Prod.fst := by
  induction sets generalizing s staging with
  | nil => exact ⟨rfl, rfl, id, fun name => by simp [stageAll]⟩
  | cons set sets ih =>
      rw [stageAll]
      obtain ⟨hdevice, hsuspect, hnodup, hnames⟩ :=
        ih (s.place set.name (some (s.stageSet staging set (s.placement set.name)).1))
          (s.stageSet staging set (s.placement set.name)).2
      refine ⟨hdevice, hsuspect, fun h => hnodup (Store.nodup_names_place h _ _), ?_⟩
      intro name
      rw [hnames, Store.mem_names_place, List.map_cons, List.mem_cons]
      by_cases heq : name = set.name
      · simp [heq]
      · simp [heq]

/-- Staging a file set leaves the other sets their sectors. -/
theorem flatMap_sectors_place (s : Store) (p : Option Placement) {name : SetName}
    {sets : List FileSet} (h : name ∉ sets.map FileSet.name) :
    (sets.flatMap fun set => ((s.place name p).placement set.name).sectors) =
      sets.flatMap fun set => (s.placement set.name).sectors := by
  refine List.flatMap_congr fun set hset => ?_
  have hne : set.name ≠ name := fun heq => h (heq ▸ List.mem_map_of_mem hset)
  rw [Store.placement_place_of_ne s p hne]

/-- **What writing the records again comes to.**  The sets are staged in turn, each from the sectors
that it has. -/
theorem account_stageAll (s : Store) (staging : Staging) {sets : List FileSet}
    (hnodup : (sets.map FileSet.name).Nodup)
    (hfiles : ∀ set ∈ sets, (s.placement set.name).cycles.map Prod.fst = set.files)
    (hsets : ∀ set ∈ sets, set.files.Nodup) :
    ∃ claimed freed writes,
      Staging.Account staging (sets.flatMap fun set => (s.placement set.name).sectors) claimed freed
        writes (stageAll s staging sets).2
        (sets.flatMap fun set => ((stageAll s staging sets).1.placement set.name).sectors) ∧
      ((stageAll s staging sets).2.shortages = [] → staging.shortages = [] ∧
        (staging.unplaced = [] → ∀ set ∈ sets, Store.SetPlaced s set
          ((stageAll s staging sets).1.placement set.name) writes)) := by
  induction sets generalizing s staging with
  | nil =>
      exact ⟨[], [], [], Staging.account_taking [] (SectorMap.taken_nil _) rfl rfl,
        fun hshortages => ⟨hshortages, fun _ set hset => by cases hset⟩⟩
  | cons set sets ih =>
      obtain ⟨hout, hrest⟩ := List.nodup_cons.1 hnodup
      obtain ⟨hfile, hfiles⟩ := List.forall_mem_cons.1 hfiles
      obtain ⟨hset, hsets⟩ := List.forall_mem_cons.1 hsets
      obtain ⟨claimed₁, freed₁, writes₁, haccount₁, hstaged⟩ :=
        Store.account_stageSet s staging set (s.placement set.name)
      rw [stageAll]
      generalize s.stageSet staging set (s.placement set.name) = result at *
      obtain ⟨p', between⟩ := result
      dsimp only at haccount₁ hstaged ⊢
      have hother : ∀ other ∈ sets, (s.place set.name (some p')).placement other.name =
          s.placement other.name := fun other hin =>
        Store.placement_place_of_ne s _ fun heq => hout (heq ▸ List.mem_map_of_mem hin)
      obtain ⟨claimed₂, freed₂, writes₂, haccount₂, hplaced⟩ :=
        ih (s.place set.name (some p')) between hrest
          (fun other hin => by rw [hother other hin]; exact hfiles other hin) hsets
      have hself : (stageAll (s.place set.name (some p')) between sets).1.placement set.name = p' := by
        rw [placement_stageAll_of_notMem _ _ hout, Store.placement_place_self]
      -- a set that is staged with the cycles that it had gives no sector up
      have hown : set.files.flatMap (s.placement set.name).sectorsOf =
          (s.placement set.name).cycles.flatMap Prod.snd := by
        rw [← hfile]
        exact Placement.flatMap_sectorsOf (hfile ▸ hset)
      rw [hown] at haccount₁
      rw [flatMap_sectors_place s _ hout] at haccount₂
      refine ⟨claimed₁ ++ claimed₂, freed₁ ++ freed₂, writes₁ ++ writes₂, ?_, ?_⟩
      · rw [List.flatMap_cons, List.flatMap_cons, hself]
        exact haccount₁.append haccount₂
      · intro hshortages
        obtain ⟨hnone₂, hothers⟩ := hplaced hshortages
        obtain ⟨hnone₁, hself'⟩ := hstaged.placed hnone₂
        refine ⟨hnone₁, fun hunplaced => ?_⟩
        obtain ⟨hbetween, hset⟩ := hself' hunplaced
        refine List.forall_mem_cons.2 ⟨?_, fun other hin => ?_⟩
        · rw [hself]
          exact hset.mono fun w hw => List.mem_append_left _ hw
        · obtain ⟨hfiles, hlead, hrecords⟩ := (hothers hbetween other hin).mono
            (show ∀ w ∈ writes₂, w ∈ writes₁ ++ writes₂ from fun w => List.mem_append_right _)
          exact ⟨hfiles, hlead, hrecords⟩

theorem getElem?_inUse (device : Device) (found : List Found) (sector : Nat) :
    (inUse device found)[sector]? =
      if sector < device.sectorCount then some (found.any fun f => f.sector = sector) else none := by
  unfold inUse
  rw [List.getElem?_map]
  by_cases h : sector < device.sectorCount
  · rw [List.getElem?_range h, if_pos h]
    rfl
  · rw [List.getElem?_eq_none (by simpa using h), if_neg h]
    rfl

theorem sector_lt_of_read {device : Device} {found : List Found} (h : read device = .ok found) :
    ∀ f ∈ found, f.sector < device.sectorCount := by
  obtain ⟨-, rfl, -⟩ := read_eq_ok.1 h
  intro f hf
  exact List.mem_range.1 (mem_filterMap_foundAt.1 hf).1

/-- A recovered file set is found under its name with the sectors it is recovered with. -/
theorem placement_of_mem_recoveredSets {items : List Placed} {leads : List (LeadItem × Nat)}
    {s : Store}
    (hplaced : s.placed = (recoveredSets items 0 leads).map fun found => (found.1.name, found.2))
    (hnodup : (s.placed.map Prod.fst).Nodup) {f : FileSet × Placement}
    (hf : f ∈ recoveredSets items 0 leads) : s.placement f.1.name = f.2 := by
  have hin : (f.1.name, f.2) ∈ s.placed := by
    rw [hplaced]
    exact List.mem_map_of_mem (f := fun found : FileSet × Placement => (found.1.name, found.2)) hf
  rw [Store.placement, (lookup_eq_some_iff hnodup).2 hin, Option.getD_some]

/-- The sectors that file sets are recovered with are those of their cycles. -/
theorem placement_recoveredSets {items : List Placed} {leads : List (LeadItem × Nat)} {s : Store}
    (hplaced : s.placed = (recoveredSets items 0 leads).map fun found => (found.1.name, found.2))
    (hnodup : (s.placed.map Prod.fst).Nodup) {set : FileSet}
    (hset : set ∈ (recoveredSets items 0 leads).map Prod.fst) :
    (s.placement set.name).cycles.map Prod.fst = set.files := by
  obtain ⟨f, hf, rfl⟩ := List.mem_map.1 hset
  have hlookup := placement_of_mem_recoveredSets hplaced hnodup hf
  obtain ⟨lead, -, n, -, rfl⟩ := mem_recoveredSets hf
  rw [hlookup, placed_recoveredSet]

section Rewriting

variable {config : Configuration} {device : Device} {found : List Found} {r : Rebuilt}

/-- The store that recovery starts to write from. -/
def initialStore (device : Device) (found : List Found) (r : Rebuilt) : Store where
  device := device
  inUse := inUse device found
  placed := r.placed

/-- Recovered file sets have sectors under their names, and nothing else has. -/
theorem placed_rebuild (device : Device) (hdistinct : Distinct found)
    (h : rebuild config found = .ok r) :
    r.placed.map Prod.fst = r.catalog.sets.map FileSet.name ∧
      (r.placed.map Prod.fst).Nodup ∧
      ∀ set ∈ r.catalog.sets,
        ((initialStore device found r).placement set.name).cycles.map Prod.fst = set.files := by
  have hindexed := indexed_rebuild hdistinct h
  obtain ⟨items, space, hitems, -, rfl⟩ := rebuild_eq_ok.1 h
  have hnames : ((recoveredSets items 0 (leads found)).map fun found => (found.1.name, found.2)).map
      Prod.fst = ((recoveredSets items 0 (leads found)).map Prod.fst).map FileSet.name := by
    rw [List.map_map, List.map_map]
    rfl
  have hnodup : (((recoveredSets items 0 (leads found)).map fun found =>
      (found.1.name, found.2)).map Prod.fst).Nodup := by
    rw [hnames]
    exact hindexed.ordered.nodup_names
  refine ⟨hnames, hnodup, ?_⟩
  intro set hset
  exact placement_recoveredSets (s := initialStore device found (extend items
    { catalog := Catalog.empty config, cleared := strayBackups found } space (leads found)))
    rfl hnodup hset

variable {t : Store} {staging : Staging} (hread : read device = .ok found)
  (h : rebuild config found = .ok r)
  (hstage : stageAll (initialStore device found r)
    (Staging.free { inUse := inUse device found } r.cleared) r.catalog.sets = (t, staging))

include hread

/-- The sectors that hold records are in use. -/
theorem inUse_of_read : ∀ sector ∈ found.map Found.sector,
    (inUse device found)[sector]? = some true := by
  intro sector hsector
  obtain ⟨f, hf, rfl⟩ := List.mem_map.1 hsector
  rw [getElem?_inUse, if_pos (sector_lt_of_read hread f hf)]
  exact congrArg some (List.any_eq_true.2 ⟨f, hf, decide_eq_true rfl⟩)

/-- What carrying the staged writes out then does to the sectors. -/
theorem flush_rewrite {claimed freed new : List Nat} {writes : List Write}
    (haccount : Staging.Account { inUse := inUse device found } (found.map Found.sector) claimed freed
      writes staging new) :
    new.Nodup ∧ (∀ sector ∈ new, (t.flush staging).1.inUse[sector]? = some true) ∧
      ((t.flush staging).2 = [] → ∀ w ∈ writes,
        (t.flush staging).1.device.medium.read w.sector = .ok w.content) := by
  have hnodup : (found.map Found.sector ++ ([] : List Nat)).Nodup := by
    rw [List.append_nil]
    exact (distinct_of_read hread).sectors
  have hinUse := inUse_of_read hread
  rw [← List.append_nil (found.map Found.sector)] at hinUse
  obtain ⟨hown, hused, -, hwritten⟩ := Store.flush_spec t hnodup hinUse haccount
  rw [List.append_nil] at hown hused
  refine ⟨hown, hused, fun hfailures w hw => hwritten w hw ?_⟩
  rw [hfailures]
  intro f hf
  cases hf

include h hstage

/-- Staging the records again gives sectors to the recovered file sets and to no others. -/
theorem placed_rewrite : t.device = device ∧ t.suspect = [] ∧ (t.placed.map Prod.fst).Nodup ∧
    ∀ name, name ∈ t.placed.map Prod.fst ↔ ∃ set ∈ r.catalog.sets, set.name = name := by
  obtain ⟨hnames, hnodup, -⟩ := placed_rebuild device (distinct_of_read hread) h
  obtain ⟨hdevice, hsuspect, htNodup, htNames⟩ := names_stageAll (initialStore device found r)
    (Staging.free { inUse := inUse device found } r.cleared) r.catalog.sets
  rw [hstage] at hdevice hsuspect htNodup htNames
  refine ⟨hdevice, hsuspect, htNodup hnodup, fun name => (htNames name).trans ?_⟩
  have hsame : name ∈ (initialStore device found r).placed.map Prod.fst ↔
      name ∈ r.catalog.sets.map FileSet.name := by rw [← hnames]; rfl
  rw [hsame, or_self, List.mem_map]

/-- **What writing the records again comes to**: the sectors that records were read from are given to
recovered file sets, or cleared. -/
theorem account_rewrite :
    ∃ claimed freed writes,
      Staging.Account { inUse := inUse device found } (found.map Found.sector) claimed freed writes
        staging t.owned ∧
      (staging.shortages = [] → ∀ set ∈ r.catalog.sets,
        Store.SetPlaced (initialStore device found r) set (t.placement set.name) writes) := by
  have hdistinct := distinct_of_read hread
  have hindexed := indexed_rebuild hdistinct h
  have hsetNames : (r.catalog.sets.map FileSet.name).Nodup := hindexed.ordered.nodup_names
  obtain ⟨hnames, hnodupNames, hfiles⟩ := placed_rebuild device hdistinct h
  obtain ⟨-, -, htPlaced, htNames⟩ := placed_rewrite hread h hstage
  obtain ⟨claimed, freed, writes, haccount, hplaced⟩ := account_stageAll
    (initialStore device found r) (Staging.free { inUse := inUse device found } r.cleared)
    hsetNames hfiles hindexed.nodup
  rw [hstage] at haccount hplaced
  have hsum := (Staging.account_free { inUse := inUse device found } r.cleared).append haccount
  have hold : (r.cleared ++ r.catalog.sets.flatMap fun set =>
      ((initialStore device found r).placement set.name).sectors).Perm
      (found.map Found.sector) := by
    have hperm := Store.perm_owned_names (s := initialStore device found r) hnodupNames hsetNames
      (fun name hname => hnames ▸ hname)
    rw [List.flatMap_map] at hperm
    refine (hperm.symm.append_left _).trans (List.perm_append_comm.trans ?_)
    exact perm_rebuilt hdistinct h
  have howned : t.owned.Perm
      (r.catalog.sets.flatMap fun set => (t.placement set.name).sectors) := by
    have hperm := Store.perm_owned_names htPlaced hsetNames
      (fun name hname => List.mem_map.2 ((htNames name).1 hname))
    rw [List.flatMap_map] at hperm
    exact hperm
  refine ⟨_, _, _, hsum.congr hold howned.symm, ?_⟩
  intro hshortages set hset
  exact ((hplaced hshortages).2 rfl set hset).mono fun w hw => List.mem_append_right _ hw

/-- **Writing the records again without a failure puts every recovered cycle on the medium.** -/
theorem recorded_rewrite (hshortages : staging.shortages = [])
    (hfailures : (t.flush staging).2 = []) :
    ∀ set ∈ r.catalog.sets, ∀ d ∈ set.cycles, (t.flush staging).1.Recorded set d := by
  obtain ⟨-, hsuspect, -, -⟩ := placed_rewrite hread h hstage
  obtain ⟨claimed, freed, writes, haccount, hplaced⟩ := account_rewrite hread h hstage
  obtain ⟨-, -, hwritten⟩ := flush_rewrite hread haccount
  have hok := hwritten hfailures
  intro set hset d hd
  obtain ⟨hfiles, ⟨l, hl, hlead⟩, hrecords⟩ := hplaced hshortages set hset
  obtain ⟨sectors, hsectors, hlength, hwrites⟩ := hrecords d hd
  have hshown : (initialStore device found r).shown d = (t.flush staging).1.shown d :=
    (Store.shown_of_suspect_eq_nil rfl d).trans
      (Store.shown_of_suspect_eq_nil (s := (t.flush staging).1) hsuspect d).symm
  rw [hshown] at hlength hwrites
  refine Store.recorded_of_read (l := l) ?_ hl (hok _ hlead) hsectors hlength
    fun w hw => hok w (hwrites w hw)
  exact hfiles.symm ▸ (indexed_rebuild (distinct_of_read hread) h).nodup set hset

/-- The sectors of recovered file sets are told apart and in use. -/
theorem keeps_rewrite (hshortages : staging.shortages = [])
    (hfailures : (t.flush staging).2 = []) : (t.flush staging).1.Keeps r.catalog := by
  obtain ⟨hdevice, -, htPlaced, htNames⟩ := placed_rewrite hread h hstage
  obtain ⟨claimed, freed, writes, haccount, hplaced⟩ := account_rewrite hread h hstage
  obtain ⟨hnodup, hinUse, -⟩ := flush_rewrite hread haccount
  have hset := hplaced hshortages
  refine ⟨?_, htPlaced, htNames, hnodup, hinUse, fun set hin => (hset set hin).files, ?_,
    fun set hin d hd _ => recorded_rewrite hread h hstage hshortages hfailures set hin d hd⟩
  · have hlength : (t.flush staging).1.inUse.length = (inUse device found).length :=
      (SectorMap.length_release _ _).trans haccount.taken.length_eq
    have hcount : (t.flush staging).1.device.sectorCount = t.device.sectorCount :=
      Store.sectorCount_write t.device staging.writes
    rw [hlength, hcount, hdevice, inUse, List.length_map, List.length_range]
  · intro name hnone
    by_cases hin : name ∈ t.placed.map Prod.fst
    · obtain ⟨set, hmem, rfl⟩ := (htNames name).1 hin
      obtain ⟨l, hl, -⟩ := (hset set hmem).lead
      exact absurd (hl.symm.trans hnone) (Option.some_ne_none l)
    · rw [Store.placement_of_notMem (s := (t.flush staging).1) hin]
      intro entry hentry
      cases hentry

end Rewriting

end FileDirectory.Recovery

namespace FileDirectory.Directory

open Recovery

/-- Once the catalog has been rebuilt, recovery succeeds unless there is something to report. -/
theorem recover_of_rebuild {config : Configuration} {device : Device} {found : List Found}
    {r : Rebuilt} {t : Store} {staging : Staging}
    (hread : Recovery.read device = .ok found) (hbuild : rebuild config found = .ok r)
    (hstage : stageAll (initialStore device found r)
      (Staging.free { inUse := Recovery.inUse device found } r.cleared) r.catalog.sets =
        (t, staging)) :
    recover config device =
      (match Store.report (t.flush staging).2 staging.shortages with
        | some f => .error f
        | none => .ok {
            catalog := r.catalog
            index := Index.ofSets r.catalog.sets
            store := some (t.flush staging).1 },
        (t.flush staging).1.device) := by
  unfold initialStore at hstage
  unfold recover
  rw [hread]
  dsimp only
  rw [hbuild]
  dsimp only
  rw [hstage]
  dsimp only
  cases Store.report (t.flush staging).2 staging.shortages with
  | none => rfl
  | some f => rfl

/-- **A recovered directory** has the catalog that the records describe, and has written the records
of its file sets again without a failure. -/
theorem recover_eq_ok {config : Configuration} {device device' : Device} {d : Directory}
    (h : recover config device = (.ok d, device')) :
    ∃ found r t staging, Recovery.read device = .ok found ∧ rebuild config found = .ok r ∧
      stageAll (initialStore device found r)
        (Staging.free { inUse := Recovery.inUse device found } r.cleared) r.catalog.sets =
          (t, staging) ∧
      Store.report (t.flush staging).2 staging.shortages = none ∧
      d = {
        catalog := r.catalog
        index := Index.ofSets r.catalog.sets
        store := some (t.flush staging).1 } := by
  cases hread : Recovery.read device with
  | error f =>
      rw [recover_of_read_error hread] at h
      cases h
  | ok found =>
      cases hbuild : rebuild config found with
      | error e =>
          rw [recover_of_rebuild_error hread hbuild] at h
          cases h
      | ok r =>
          cases hstage : stageAll (initialStore device found r)
            (Staging.free { inUse := Recovery.inUse device found } r.cleared) r.catalog.sets with
          | mk t staging =>
              rw [recover_of_rebuild hread hbuild hstage] at h
              cases hreport : Store.report (t.flush staging).2 staging.shortages with
              | some f =>
                  rw [hreport] at h
                  cases h
              | none =>
                  rw [hreport] at h
                  cases h
                  exact ⟨found, r, t, staging, rfl, hbuild, hstage, hreport, rfl⟩

/-- A recovered directory is on the medium that recovery leaves behind. -/
theorem device_recover {config : Configuration} {device device' : Device} {d : Directory}
    (h : recover config device = (.ok d, device')) {store : Store} (hstore : d.store = some store) :
    store.device = device' := by
  obtain ⟨found, r, t, staging, hread, hbuild, hstage, hreport, rfl⟩ := recover_eq_ok h
  rw [recover_of_rebuild hread hbuild hstage, hreport] at h
  cases hstore
  exact (Prod.mk.inj h).2

/-- **A recovered directory has its cycles told apart and on the medium.** -/
theorem keeps_recover {config : Configuration} {device device' : Device} {d : Directory}
    (h : recover config device = (.ok d, device')) :
    d.catalog.Indexed ∧ ∃ store, d.store = some store ∧ store.Keeps d.catalog := by
  obtain ⟨found, r, t, staging, hread, hbuild, hstage, hreport, rfl⟩ := recover_eq_ok h
  obtain ⟨hfailures, hshortages⟩ := Store.report_eq_none.1 hreport
  exact ⟨indexed_rebuild (distinct_of_read hread) hbuild, _, rfl,
    keeps_rewrite hread hbuild hstage hshortages hfailures⟩

/-- A recovered directory shows every cycle as it has it. -/
theorem shown_recover {config : Configuration} {device device' : Device} {d : Directory}
    (h : recover config device = (.ok d, device')) (c : FileCycle) : d.shown c = c.item := by
  obtain ⟨found, r, t, staging, -, -, hstage, -, rfl⟩ := recover_eq_ok h
  have hsuspect := (names_stageAll (initialStore device found r)
    (Staging.free { inUse := Recovery.inUse device found } r.cleared) r.catalog.sets).2.1
  rw [hstage] at hsuspect
  exact Store.shown_of_suspect_eq_nil (s := (t.flush staging).1) hsuspect c

end FileDirectory.Directory

namespace FileDirectory

/-- A recovered directory lists no client on its roster. -/
theorem Directory.roster_recover {config : Configuration} {device device' : Device} {d : Directory}
    (h : recover config device = (.ok d, device')) : d.roster = {} := by
  obtain ⟨found, r, t, staging, -, -, -, -, rfl⟩ := recover_eq_ok h
  rfl

/-- The index of a recovered directory is that of its file sets. -/
theorem Directory.index_recover {config : Configuration} {device device' : Device} {d : Directory}
    (h : recover config device = (.ok d, device')) : d.index = Index.ofSets d.catalog.sets := by
  obtain ⟨found, r, t, staging, -, -, -, -, rfl⟩ := recover_eq_ok h
  rfl

/-! ### Failing -/

theorem Recovery.kind_of_read_error {device : Device} {f : Failure}
    (h : Recovery.read device = .error f) : f.kind = .mediumIo := by
  have hgoes : ∀ (seen : List RecordTag) (sectors : List Nat),
      readFrom device seen sectors = .error f → f.kind = .mediumIo := by
    intro seen sectors
    induction sectors generalizing seen with
    | nil =>
        intro h
        cases h
    | cons sector sectors ih =>
        intro h
        rw [readFrom] at h
        split at h
        · cases h
          rfl
        · split at h
          · cases h
            rfl
          · exact ih seen h
          · rename_i record _
            split at h
            · cases h
              rfl
            · refine ih (record.tag :: seen) ?_
              cases hrest : readFrom device (record.tag :: seen) sectors with
              | error e =>
                  rw [hrest] at h
                  cases h
                  rfl
              | ok found =>
                  rw [hrest] at h
                  cases h
  exact hgoes _ _ h

/-- Whatever is missing when records are staged is space on the medium. -/
theorem Recovery.kind_of_mem_shortages_stageAll (s : Store) (staging : Staging) (sets : List FileSet)
    (h : ∀ f ∈ staging.shortages, f.kind = .mediumIo) :
    ∀ f ∈ (stageAll s staging sets).2.shortages, f.kind = .mediumIo := by
  induction sets generalizing s staging with
  | nil => exact h
  | cons set sets ih =>
      obtain ⟨claimed, freed, writes, -, hstaged⟩ :=
        Store.account_stageSet s staging set (s.placement set.name)
      obtain ⟨files, shortages, -, hshortages, -, hkind, -⟩ := hstaged.complaints
      have hset : ∀ f ∈ (s.stageSet staging set (s.placement set.name)).2.shortages,
          f.kind = .mediumIo := by
        rw [hshortages, List.forall_mem_append]
        exact ⟨h, hkind⟩
      exact ih _ _ hset

/-- **Recovery fails only with an error of the medium.** -/
theorem Directory.kind_of_recover_error {config : Configuration} {device : Device} {f : Failure}
    (h : (recover config device).1 = .error f) : f.kind = .mediumIo := by
  unfold recover at h
  split at h
  · rename_i hread
    cases h
    exact Recovery.kind_of_read_error hread
  · split at h
    · cases h
      rfl
    · rename_i found _ r _
      dsimp only at h
      split at h
      · rename_i hreport
        cases h
        unfold Store.report at hreport
        split at hreport
        · cases hreport
          rfl
        · refine Recovery.kind_of_mem_shortages_stageAll _ _ _ ?_ f (List.mem_of_mem_head? hreport)
          intro f hf
          cases hf
      · cases h

end FileDirectory
