/-
**What recovery makes of the records.**

Rebuilding the catalog goes through the lead items in the order of their names and, for each, through
the main items of its file set.  Here the two loops are replaced by what they come to: the live
cycles get consecutive identifiers and claim their tracks, everything else is noted to be cleared.

Main definitions:

* `FileDirectory.Recovery.live`, `FileDirectory.Recovery.numbered` — the live ones among main items,
  and main items with the identifiers they get;
* `FileDirectory.Recovery.recoveredSets`, `FileDirectory.Recovery.recoveredSectors` — the file sets
  that are recovered, with their sectors, and the sectors that are to be cleared.

Main results:

* `FileDirectory.Recovery.rebuild_eq_ok` — what rebuilding gives, and when;
* `FileDirectory.Recovery.perm_rebuilt` — every record belongs to one file set or is cleared.
-/

import FileDirectory.Proofs.Recovery.Found
import FileDirectory.Proofs.Store.Staging

set_option autoImplicit false

namespace FileDirectory.Recovery

/-! ### Claiming tracks -/

theorem claimAll_append {space after : FreeSpace} {first rest : List Region} :
    claimAll space (first ++ rest) = .ok after ↔
      ∃ between, claimAll space first = .ok between ∧ claimAll between rest = .ok after := by
  induction first generalizing space with
  | nil => simp [claimAll]
  | cons r first ih =>
      rw [List.cons_append, claimAll, claimAll]
      rcases space.claim r with ⟨taken, left⟩
      cases taken with
      | true => exact ih
      | false => simp

/-! ### The cycles of one file set -/

/-- The live ones among main items. -/
def live (items : List Placed) : List Placed := items.filter fun p => p.item.state = .live

/-- The main items that are not live. -/
def dead (items : List Placed) : List Placed := items.filter fun p => p.item.state ≠ .live

/-- The pack tracks of main items. -/
def regions (items : List Placed) : List Region :=
  items.flatMap fun p => p.item.table.packRegions

/-- Main items with the identifiers after a given one. -/
def numbered (last : Nat) : List Placed → List (FileId × Placed)
  | [] => []
  | p :: items => (⟨last + 1⟩, p) :: numbered (last + 1) items

/-- The cycle that is recovered from a main item. -/
def recoveredCycle (entry : FileId × Placed) : FileCycle where
  file := entry.1
  item := afterStop entry.2.item

/-- The identifier and the sectors of a cycle that is recovered. -/
def recoveredSectors (entry : FileId × Placed) : FileId × List Nat := (entry.1, entry.2.sectors)

@[simp] theorem live_nil : live [] = [] := rfl

@[simp] theorem numbered_nil (last : Nat) : numbered last [] = [] := rfl

theorem files_numbered (last : Nat) (items : List Placed) :
    (numbered last items).map Prod.snd = items := by
  induction items generalizing last with
  | nil => rfl
  | cons p items ih => exact congrArg (p :: ·) (ih (last + 1))

/-- A file set in progress once some main items have been gone through. -/
def advance (s : SetInProgress) (space : FreeSpace) (items : List Placed) : SetInProgress where
  space := space
  lastFile := s.lastFile + (live items).length
  set := { s.set with
    cycles := s.set.cycles ++ (numbered s.lastFile (live items)).map recoveredCycle }
  placement := { s.placement with
    cycles := s.placement.cycles ++ (numbered s.lastFile (live items)).map recoveredSectors }
  cleared := s.cleared ++ (dead items).flatMap Placed.sectors

/-- **Going through main items** succeeds exactly if the live ones can claim their tracks. -/
theorem foldlM_addCycle_eq_ok {s s' : SetInProgress} {items : List Placed} :
    items.foldlM addCycle s = .ok s' ↔
      ∃ space, claimAll s.space (regions (live items)) = .ok space ∧
        s' = advance s space items := by
  induction items generalizing s with
  | nil =>
      obtain ⟨space, lastFile, set, placement, cleared⟩ := s
      simp [advance, regions, dead, claimAll, pure, Except.pure, eq_comm]
  | cons p items ih =>
      have hbind : ∀ (t : SetInProgress),
          ((Except.ok t : Except Inconsistency SetInProgress) >>= fun t =>
            items.foldlM addCycle t) = items.foldlM addCycle t := fun _ => rfl
      rw [List.foldlM_cons, addCycle]
      by_cases hlive : p.item.state = .live
      · have hcons : live (p :: items) = p :: live items := by simp [live, hlive]
        have hdead : dead (p :: items) = dead items := by simp [dead, hlive]
        rw [if_pos hlive, hcons, regions, List.flatMap_cons]
        simp only [claimAll_append]
        cases hclaim : claimAll s.space p.item.table.packRegions with
        | error r => simp [bind, Except.bind]
        | ok space =>
            rw [hbind, ih]
            simp only [Except.ok.injEq, exists_eq_left']
            refine exists_congr fun after => and_congr_right fun _ => ?_
            -- the identifier that is given out next stands before those of the rest
            have hsame : advance { s with
                space := space
                lastFile := s.lastFile + 1
                set := { s.set with cycles := s.set.cycles ++
                  [{ file := ⟨s.lastFile + 1⟩, item := afterStop p.item }] }
                placement := { s.placement with
                  cycles := s.placement.cycles ++ [(⟨s.lastFile + 1⟩, p.sectors)] } } after items =
                advance s after (p :: items) := by
              unfold advance
              rw [hcons, hdead]
              simp only [numbered, List.map_cons, List.append_assoc, List.singleton_append,
                List.length_cons, Nat.add_right_comm _ 1, Nat.add_assoc]
              rfl
            rw [← hsame]
      · have hcons : live (p :: items) = live items := by simp [live, hlive]
        have hdead : dead (p :: items) = p :: dead items := by simp [dead, hlive]
        rw [if_neg hlive, hbind, ih, hcons]
        refine exists_congr fun after => and_congr_right fun _ => ?_
        unfold advance
        rw [hcons, hdead, List.flatMap_cons, List.append_assoc]

/-! ### The file sets -/

/-- The main items of the file set of a lead item. -/
def own (items : List Placed) (lead : LeadItem × Nat) : List Placed :=
  items.filter fun placed => placed.item.key.set = lead.1.name

/-- The live cycles of the file set of a lead item. -/
def survivors (items : List Placed) (lead : LeadItem × Nat) : List Placed := live (own items lead)

/-- A file set that is recovered from a lead item and live cycles, with its sectors. -/
def recoveredSet (last : Nat) (cycles : List Placed) (lead : LeadItem × Nat) :
    FileSet × Placement :=
  (FileSet.refresh { lead := lead.1, cycles := (numbered last cycles).map recoveredCycle },
    { lead := some lead.2, cycles := (numbered last cycles).map recoveredSectors })

/-- The file sets that are recovered from lead items: those that have a live cycle. -/
def recoveredSets (items : List Placed) (last : Nat) :
    List (LeadItem × Nat) → List (FileSet × Placement)
  | [] => []
  | lead :: leads =>
    if survivors items lead = [] then recoveredSets items last leads
    else
      recoveredSet last (survivors items lead) lead ::
        recoveredSets items (last + (survivors items lead).length) leads

/-- The sectors of one file set that are to be cleared. -/
def clearedOf (items : List Placed) (lead : LeadItem × Nat) : List Nat :=
  (dead (own items lead)).flatMap Placed.sectors ++
    if survivors items lead = [] then [lead.2] else []

/-- The catalog once some lead items have been gone through. -/
def extend (items : List Placed) (r : Rebuilt) (space : FreeSpace) (leads : List (LeadItem × Nat)) :
    Rebuilt where
  catalog := { r.catalog with
    space := space
    lastFile := r.catalog.lastFile + (leads.flatMap (survivors items)).length
    sets := r.catalog.sets ++ (recoveredSets items r.catalog.lastFile leads).map Prod.fst }
  placed := r.placed ++ (recoveredSets items r.catalog.lastFile leads).map fun found =>
    (found.1.name, found.2)
  cleared := r.cleared ++ leads.flatMap (clearedOf items)

theorem regions_append (first rest : List Placed) :
    regions (first ++ rest) = regions first ++ regions rest := List.flatMap_append

theorem addSet_eq_ok {items : List Placed} {r r' : Rebuilt} {lead : LeadItem × Nat} :
    addSet items r lead = .ok r' ↔
      ∃ space, claimAll r.catalog.space (regions (survivors items lead)) = .ok space ∧
        r' = extend items r space [lead] := by
  unfold addSet
  rw [bind_eq_ok]
  have hown : (items.filter fun placed => placed.item.key.set = lead.1.name) = own items lead := rfl
  rw [hown]
  have hgoes : ∀ s', (own items lead).foldlM addCycle
      { space := r.catalog.space, lastFile := r.catalog.lastFile, set := { lead := lead.1 }
        placement := { lead := some lead.2 } } = .ok s' ↔ _ := fun s' => foldlM_addCycle_eq_ok
  simp only [hgoes]
  -- the lead item is kept if a cycle is, and its sector is to be cleared otherwise
  have hmatch : ∀ space, (do
      let s := advance { space := r.catalog.space, lastFile := r.catalog.lastFile
                         set := { lead := lead.1 }, placement := { lead := some lead.2 } } space
                (own items lead)
      let catalog := { r.catalog with space := s.space, lastFile := s.lastFile }
      if s.set.cycles.isEmpty then
        return { r with catalog := catalog, cleared := r.cleared ++ s.cleared ++ [lead.2] }
      return {
        catalog := { catalog with sets := catalog.sets ++ [s.set.refresh] }
        placed := r.placed ++ [(lead.1.name, s.placement)]
        cleared := r.cleared ++ s.cleared } : Except Inconsistency Rebuilt) =
      .ok (extend items r space [lead]) := by
    intro space
    by_cases hnone : survivors items lead = []
    · have hlive : live (own items lead) = [] := hnone
      simp [advance, extend, recoveredSets, clearedOf, hnone, hlive, pure, Except.pure]
    · have hlive : live (own items lead) ≠ [] := hnone
      have hnumbered : numbered r.catalog.lastFile (live (own items lead)) ≠ [] := by
        -- every cycle that survives is numbered
        intro hempty
        have hfiles := files_numbered r.catalog.lastFile (live (own items lead))
        rw [hempty] at hfiles
        exact hlive hfiles.symm
      simp [advance, extend, recoveredSets, recoveredSet, clearedOf, hlive, hnumbered, survivors,
        pure, Except.pure]
      rfl
  constructor
  · rintro ⟨s', ⟨space, hclaim, rfl⟩, hrest⟩
    refine ⟨space, hclaim, ?_⟩
    have hok := hmatch space
    exact Except.ok.inj (hrest.symm.trans hok)
  · rintro ⟨space, hclaim, rfl⟩
    exact ⟨_, ⟨space, hclaim, rfl⟩, hmatch space⟩

theorem recoveredSets_cons (items : List Placed) (last : Nat) (lead : LeadItem × Nat)
    (leads : List (LeadItem × Nat)) :
    recoveredSets items last (lead :: leads) =
      recoveredSets items last [lead] ++
        recoveredSets items (last + (survivors items lead).length) leads := by
  rw [recoveredSets, recoveredSets]
  by_cases hnone : survivors items lead = []
  · rw [if_pos hnone, if_pos hnone, hnone]
    rfl
  · rw [if_neg hnone, if_neg hnone]
    rfl

theorem extend_extend (items : List Placed) (r : Rebuilt) (space after : FreeSpace)
    (lead : LeadItem × Nat) (leads : List (LeadItem × Nat)) :
    extend items (extend items r space [lead]) after leads =
      extend items r after (lead :: leads) := by
  unfold extend
  rw [recoveredSets_cons items r.catalog.lastFile lead leads]
  simp only [List.flatMap_cons, List.flatMap_nil, List.append_nil, List.append_assoc,
    List.length_append, List.map_append, Nat.add_assoc]

/-- **Going through lead items** succeeds exactly if all live cycles can claim their tracks. -/
theorem foldlM_addSet_eq_ok {items : List Placed} {r r' : Rebuilt}
    {leads : List (LeadItem × Nat)} :
    leads.foldlM (addSet items) r = .ok r' ↔
      ∃ space, claimAll r.catalog.space (regions (leads.flatMap (survivors items))) = .ok space ∧
        r' = extend items r space leads := by
  induction leads generalizing r with
  | nil =>
      obtain ⟨⟨config, sets, space, lastFile⟩, placed, cleared⟩ := r
      simp [extend, regions, recoveredSets, claimAll, pure, Except.pure, eq_comm]
  | cons lead leads ih =>
      rw [List.foldlM_cons, bind_eq_ok, List.flatMap_cons, regions_append]
      simp only [claimAll_append]
      constructor
      · rintro ⟨between, hfirst, hrest⟩
        obtain ⟨space, hclaim, rfl⟩ := addSet_eq_ok.1 hfirst
        obtain ⟨after, hafter, rfl⟩ := ih.1 hrest
        exact ⟨after, ⟨space, hclaim, hafter⟩, extend_extend items r space after lead leads⟩
      · rintro ⟨after, ⟨space, hclaim, hafter⟩, rfl⟩
        refine ⟨_, addSet_eq_ok.2 ⟨space, hclaim, rfl⟩, ih.2 ⟨after, hafter, ?_⟩⟩
        exact (extend_extend items r space after lead leads).symm

/-! ### Main items -/

/-- A main item with what its other records say. -/
def assembled (found : List Found) (main : MainItem × Nat) (backup : BackupInfo × Nat) : Placed where
  item := { main.1 with
    backup := backup.1
    table := ((allocationsOf found main.1.key).flatMap FoundExtents.extents).foldl
      ExtentTable.insert main.1.table }
  sectors := main.2 :: backup.2 :: (allocationsOf found main.1.key).map FoundExtents.sector

/-- A main item is put together exactly if it has a backup record and its set a lead record. -/
theorem assemble_eq_ok {found : List Found} {main : MainItem × Nat} {placed : Placed} :
    assemble found main = .ok placed ↔
      ∃ backup, (backups found).lookup main.1.key = some backup ∧
        (∃ lead ∈ leads found, lead.1.name = main.1.key.set) ∧
        placed = assembled found main backup := by
  unfold assemble
  dsimp only
  cases hlookup : (backups found).lookup main.1.key with
  | none => simp
  | some backup =>
      obtain ⟨info, sector⟩ := backup
      by_cases hlead : (leads found).any (fun lead => lead.1.name = main.1.key.set) = true
      · have hexists : ∃ lead ∈ leads found, lead.1.name = main.1.key.set := by
          obtain ⟨lead, hin, hname⟩ := List.any_eq_true.1 hlead
          exact ⟨lead, hin, of_decide_eq_true hname⟩
        simp only [hlead, if_true, Except.ok.injEq, Option.some.injEq, exists_eq_left']
        exact ⟨fun h => ⟨hexists, h.symm⟩, fun h => h.2.symm⟩
      · have hnone : ¬∃ lead ∈ leads found, lead.1.name = main.1.key.set := by
          rintro ⟨lead, hin, hname⟩
          exact hlead (List.any_eq_true.2 ⟨lead, hin, decide_eq_true hname⟩)
        simp [hlead, hnone]

/-- **All main items are put together** exactly if each can be and no allocation record is left. -/
theorem assembleAll_eq_ok {found : List Found} {items : List Placed} :
    assembleAll found = .ok items ↔
      (mains found).map (assemble found) = items.map .ok ∧
        ∀ a ∈ allocations found, ∃ main ∈ mains found, main.1.key = a.key := by
  unfold assembleAll
  rw [bind_eq_ok]
  simp only [mapM_eq_ok]
  have horphan : (allocations found).find? (fun a =>
      !(mains found).any fun main => main.1.key = a.key) = none ↔
      ∀ a ∈ allocations found, ∃ main ∈ mains found, main.1.key = a.key := by
    simp
  cases hfind : (allocations found).find? (fun a =>
      !(mains found).any fun main => main.1.key = a.key) with
  | some a =>
      rw [hfind] at horphan
      have hnone : ¬∀ a ∈ allocations found, ∃ main ∈ mains found, main.1.key = a.key := by
        rw [← horphan]
        exact Option.some_ne_none a
      constructor
      · rintro ⟨placed, -, hbad⟩
        cases hbad
      · rintro ⟨-, hall⟩
        exact absurd hall hnone
  | none =>
      have hall := horphan.1 hfind
      constructor
      · rintro ⟨placed, hplaced, heq⟩
        cases heq
        exact ⟨hplaced, hall⟩
      · rintro ⟨hplaced, -⟩
        exact ⟨items, hplaced, rfl⟩

/-- **What rebuilding gives, and when.** -/
theorem rebuild_eq_ok {config : Configuration} {found : List Found} {r : Rebuilt} :
    rebuild config found = .ok r ↔
      ∃ items space, assembleAll found = .ok items ∧
        claimAll (Catalog.empty config).space
          (regions ((leads found).flatMap (survivors items))) = .ok space ∧
        r = extend items { catalog := Catalog.empty config, cleared := strayBackups found } space
          (leads found) := by
  unfold rebuild
  rw [bind_eq_ok]
  simp only [foldlM_addSet_eq_ok]
  constructor
  · rintro ⟨items, hitems, space, hclaim, hr⟩
    exact ⟨items, space, hitems, hclaim, hr⟩
  · rintro ⟨items, space, hitems, hclaim, hr⟩
    exact ⟨items, hitems, space, hclaim, hr⟩

/-! ### Every record is accounted for -/

theorem perm_live_dead (items : List Placed) : (live items ++ dead items).Perm items := by
  have hsplit := List.filter_append_perm (fun p : Placed => decide (p.item.state = .live)) items
  refine List.Perm.trans (List.Perm.append_left _ (List.Perm.of_eq ?_)) hsplit
  refine List.filter_congr ?_
  intro p _
  rw [decide_not]

theorem flatMap_recoveredSectors (last : Nat) (items : List Placed) :
    ((numbered last items).map recoveredSectors).flatMap Prod.snd =
      items.flatMap Placed.sectors := by
  rw [List.flatMap_map, ← files_numbered last items, List.flatMap_map, files_numbered]
  rfl

/-- The sectors of the file sets that are recovered and those that are cleared are the sectors of
lead items and of the main items that belong to them. -/
theorem perm_recoveredSets (items : List Placed) (last : Nat) (leads : List (LeadItem × Nat)) :
    ((recoveredSets items last leads).flatMap (fun found => found.2.sectors) ++
      leads.flatMap (clearedOf items)).Perm
      (leads.map Prod.snd ++ (leads.flatMap (own items)).flatMap Placed.sectors) := by
  induction leads generalizing last with
  | nil => exact List.Perm.refl _
  | cons lead leads ih =>
      rw [recoveredSets_cons, List.flatMap_append, List.flatMap_cons, List.map_cons,
        List.flatMap_cons, List.flatMap_append]
      have hfirst : ((recoveredSets items last [lead]).flatMap (fun found => found.2.sectors) ++
          clearedOf items lead).Perm (lead.2 :: (own items lead).flatMap Placed.sectors) := by
        have hsplit := (perm_live_dead (own items lead)).flatMap_right Placed.sectors
        rw [List.flatMap_append] at hsplit
        rw [recoveredSets, clearedOf]
        by_cases hnone : survivors items lead = []
        · have hlive : live (own items lead) = [] := hnone
          rw [if_pos hnone, if_pos hnone]
          rw [hlive] at hsplit
          rw [recoveredSets, List.flatMap_nil, List.nil_append]
          exact List.perm_append_comm.trans (hsplit.cons lead.2)
        · rw [if_neg hnone, if_neg hnone, List.append_nil]
          refine List.Perm.trans (List.Perm.of_eq ?_) (hsplit.cons lead.2)
          rw [List.flatMap_cons, recoveredSets, List.flatMap_nil, List.append_nil]
          unfold recoveredSet Placement.sectors
          rw [flatMap_recoveredSectors]
          rfl
      refine (perm_append_swap_middle _ _ _ _).trans ?_
      refine (hfirst.append (ih _)).trans ?_
      rw [List.cons_append, List.cons_append]
      refine List.Perm.cons _ ?_
      exact List.perm_append_comm_assoc _ _ _

section Accounting

variable {found : List Found} {items : List Placed}

/-- What the assembled main items are. -/
theorem assembleAll_map (h : assembleAll found = .ok items) :
    ∀ placed ∈ items, ∃ main ∈ mains found, ∃ backup,
      (backups found).lookup main.1.key = some backup ∧
      (∃ lead ∈ leads found, lead.1.name = main.1.key.set) ∧
      placed = assembled found main backup := by
  intro placed hplaced
  obtain ⟨hmap, -⟩ := assembleAll_eq_ok.1 h
  have hin : Except.ok placed ∈ (mains found).map (assemble found) := by
    rw [hmap]
    exact List.mem_map_of_mem hplaced
  obtain ⟨main, hmain, heq⟩ := List.mem_map.1 hin
  obtain ⟨backup, hlookup, hlead, rfl⟩ := assemble_eq_ok.1 heq
  exact ⟨main, hmain, backup, hlookup, hlead, rfl⟩

/-- Each main item has its identity record, one backup record and its allocation records. -/
theorem flatMap_sectors_of_map (hbackups : ((backups found).map Prod.fst).Nodup)
    {mains : List (MainItem × Nat)} (h : mains.map (assemble found) = items.map .ok) :
    items.flatMap Placed.sectors = mains.flatMap fun main =>
      [main.2] ++ (((backups found).filter fun b => b.1 = main.1.key).map (fun b => b.2.2) ++
        (allocationsOf found main.1.key).map FoundExtents.sector) := by
  induction mains generalizing items with
  | nil =>
      cases items with
      | nil => rfl
      | cons p ps => cases h
  | cons main mains ih =>
      cases items with
      | nil => cases h
      | cons p ps =>
          obtain ⟨hhead, htail⟩ := List.cons.inj h
          obtain ⟨backup, hlookup, -, rfl⟩ := assemble_eq_ok.1 hhead
          have hone : (backups found).filter (fun b => b.1 = main.1.key) =
              [(main.1.key, backup)] := by
            rw [filter_key_eq hbackups, hlookup]
            rfl
          rw [List.flatMap_cons, List.flatMap_cons, ih htail, hone]
          rfl

/-- The backup records of main items, name by name. -/
theorem perm_backups_of_mains (hkeys : ((mains found).map fun main => main.1.key).Nodup) :
    ((mains found).flatMap fun main =>
      ((backups found).filter fun b => b.1 = main.1.key).map fun b => b.2.2).Perm
      (((backups found).filter fun b => (mains found).any fun main => main.1.key = b.1).map
        fun b => b.2.2) := by
  rw [← List.map_flatMap]
  refine List.Perm.map _ ?_
  have hperm := perm_flatMap_filter Prod.fst (backups found) hkeys
  rw [List.flatMap_map] at hperm
  refine hperm.trans (List.Perm.of_eq (List.filter_congr ?_))
  intro b _
  rw [Bool.eq_iff_iff]
  simp

/-- The allocation records, each of which belongs to a main item, name by name. -/
theorem perm_allocations_of_mains (hkeys : ((mains found).map fun main => main.1.key).Nodup)
    (hall : ∀ a ∈ allocations found, ∃ main ∈ mains found, main.1.key = a.key) :
    ((mains found).flatMap fun main =>
      (allocationsOf found main.1.key).map FoundExtents.sector).Perm
      ((allocations found).map FoundExtents.sector) := by
  rw [← List.map_flatMap]
  refine List.Perm.map _ ?_
  have hperm := perm_flatMap_filter FoundExtents.key (allocations found) hkeys
  rw [List.flatMap_map] at hperm
  refine List.Perm.trans (List.Perm.flatMap_left _ fun main _ => List.mergeSort_perm _ _) ?_
  refine hperm.trans (List.Perm.of_eq (List.filter_eq_self.2 ?_))
  intro a ha
  obtain ⟨main, hmain, hkey⟩ := hall a ha
  exact decide_eq_true (hkey ▸ List.mem_map_of_mem hmain)

/-- The sectors of the main items are those of the identity records, of the backup records that
belong to one and of the allocation records. -/
theorem perm_assembled (hdistinct : Distinct found) (h : assembleAll found = .ok items) :
    (items.flatMap Placed.sectors).Perm ((mains found).map Prod.snd ++
      (((backups found).filter fun b => (mains found).any fun main => main.1.key = b.1).map
        (fun b => b.2.2) ++ (allocations found).map FoundExtents.sector)) := by
  obtain ⟨hmap, hall⟩ := assembleAll_eq_ok.1 h
  have hkeys : ((mains found).map fun main => main.1.key).Nodup :=
    nodup_of_pairwise_lt (fun main : MainItem × Nat => main.1.key) hdistinct.pairwise_mains
  rw [flatMap_sectors_of_map hdistinct.nodup_backups hmap]
  refine (List.flatMap_append_perm _ _ _).symm.trans (List.Perm.append (List.Perm.of_eq ?_) ?_)
  · exact List.map_eq_flatMap.symm
  · exact (List.flatMap_append_perm _ _ _).symm.trans
      ((perm_backups_of_mains hkeys).append (perm_allocations_of_mains hkeys hall))

theorem perm_own {leads : List (LeadItem × Nat)} (hnames : (leads.map fun lead => lead.1.name).Nodup)
    (hall : ∀ placed ∈ items, ∃ lead ∈ leads, lead.1.name = placed.item.key.set) :
    (leads.flatMap (own items)).Perm items := by
  have hperm := perm_flatMap_filter (fun placed : Placed => placed.item.key.set) items hnames
  rw [List.flatMap_map] at hperm
  refine hperm.trans (List.Perm.of_eq (List.filter_eq_self.2 ?_))
  intro placed hplaced
  obtain ⟨lead, hlead, hname⟩ := hall placed hplaced
  exact decide_eq_true (hname ▸ List.mem_map_of_mem hlead)

/-- **Every record belongs to one file set that is recovered, or is cleared.** -/
theorem perm_rebuilt {config : Configuration} {r : Rebuilt} (hdistinct : Distinct found)
    (h : rebuild config found = .ok r) :
    (r.placed.flatMap (fun entry => entry.2.sectors) ++ r.cleared).Perm
      (found.map Found.sector) := by
  obtain ⟨items, space, hitems, -, rfl⟩ := rebuild_eq_ok.1 h
  have hnames : ((leads found).map fun lead => lead.1.name).Nodup :=
    nodup_of_pairwise_lt (fun lead : LeadItem × Nat => lead.1.name) hdistinct.pairwise_leads
  have hown : ((leads found).flatMap (own items)).Perm items := by
    refine perm_own hnames ?_
    intro placed hplaced
    obtain ⟨main, -, backup, -, hlead, rfl⟩ := assembleAll_map hitems placed hplaced
    exact hlead
  have hsets := perm_recoveredSets items 0 (leads found)
  have hstray := List.filter_append_perm
    (fun b : CycleKey × BackupInfo × Nat => (mains found).any fun main => main.1.key = b.1)
    (backups found)
  unfold extend
  simp only [List.nil_append, List.flatMap_map]
  refine List.Perm.trans ?_ (perm_sectors found).symm
  refine (List.perm_append_comm_assoc _ _ _).trans ?_
  refine (hsets.append_left _).trans ?_
  refine (((hown.flatMap_right Placed.sectors).trans
    (perm_assembled hdistinct hitems)).append_left _ |>.append_left _).trans ?_
  refine (List.perm_append_comm_assoc _ _ _).trans ?_
  refine List.Perm.append_left _ ?_
  refine (List.perm_append_comm_assoc _ _ _).trans ?_
  refine List.Perm.append_left _ ?_
  rw [← List.append_assoc]
  refine List.Perm.append_right _ ?_
  unfold strayBackups
  rw [← List.map_append]
  exact (List.perm_append_comm.trans hstray).map _

end Accounting

end FileDirectory.Recovery
