/-
**The records that recovery finds.**

Reading a medium succeeds exactly if every sector can be read and holds a record, or is free, and no
two records are records of the same thing.  The records are then sorted out by their kinds; each is
in exactly one of the lists, and no list has two records of one name.

Main definitions:

* `FileDirectory.Recovery.foundAt` — the record in a sector, with its sector;
* `FileDirectory.Recovery.Distinct` — no two records share a sector or a tag.

Main results:

* `FileDirectory.Recovery.read_eq_ok` — what reading a medium gives, and when;
* `FileDirectory.Recovery.perm_sectors` — the sectors of the records by their kinds.
-/

import FileDirectory.Proofs.Catalog.Order
import FileDirectory.Recovery
import Mathlib.Data.List.Nodup
import Mathlib.Data.List.Perm.Subperm

set_option autoImplicit false

namespace FileDirectory.Recovery

/-! ### Reading -/

/-- The record in a sector with its sector, if there is one. -/
def foundAt (device : Device) (sector : Nat) : Option Found :=
  match device.read sector with
  | .error _ => none
  | .ok content =>
    match Record.ofSector content with
    | .error _ => none
    | .ok record => record.map (⟨sector, ·⟩)

/-- A sector can be read and is free or holds a record. -/
def Readable (device : Device) (sector : Nat) : Prop :=
  ∃ content record, device.read sector = .ok content ∧ Record.ofSector content = .ok record

theorem foundAt_of_read {device : Device} {sector : Nat} {content : Sector} {record : Option Record}
    (hread : device.read sector = .ok content) (hrecord : Record.ofSector content = .ok record) :
    foundAt device sector = record.map (⟨sector, ·⟩) := by
  unfold foundAt
  rw [hread]
  dsimp only
  rw [hrecord]

/-- What reading from a sector with a record on gives. -/
theorem readFrom_cons_of_record {device : Device} {seen : List RecordTag} {sector : Nat}
    {sectors : List Nat} {content : Sector} {record : Record} {found : List Found}
    (hread : device.read sector = .ok content)
    (hrecord : Record.ofSector content = .ok (some record)) :
    readFrom device seen (sector :: sectors) = .ok found ↔
      record.tag ∉ seen ∧ ∃ rest, readFrom device (record.tag :: seen) sectors = .ok rest ∧
        found = ⟨sector, record⟩ :: rest := by
  rw [readFrom, hread]
  dsimp only
  rw [hrecord]
  dsimp only
  by_cases hseen : record.tag ∈ seen
  · rw [if_pos hseen]
    exact ⟨fun h => (by cases h), fun h => absurd hseen h.1⟩
  · rw [if_neg hseen]
    cases readFrom device (record.tag :: seen) sectors with
    | error e => exact ⟨fun h => (by cases h), fun ⟨_, _, h, _⟩ => (by cases h)⟩
    | ok rest =>
        constructor
        · intro h
          cases h
          exact ⟨hseen, rest, rfl, rfl⟩
        · rintro ⟨-, _, h, rfl⟩
          cases h
          rfl

/-- The tag of the first record is new if no other record has it and it was not seen before. -/
theorem nodup_tags_cons {f : Found} {rest : List Found} {seen : List RecordTag} :
    (((f :: rest).map fun g => g.record.tag).Nodup ∧ ∀ g ∈ f :: rest, g.record.tag ∉ seen) ↔
      f.record.tag ∉ seen ∧ (rest.map fun g => g.record.tag).Nodup ∧
        ∀ g ∈ rest, g.record.tag ∉ f.record.tag :: seen := by
  rw [List.map_cons, List.nodup_cons, List.forall_mem_cons]
  constructor
  · rintro ⟨⟨hfresh, hnodup⟩, hf, hrest⟩
    refine ⟨hf, hnodup, fun g hg hin => ?_⟩
    rcases List.mem_cons.1 hin with heq | hin
    · exact hfresh (heq ▸ List.mem_map_of_mem hg)
    · exact hrest g hg hin
  · rintro ⟨hf, hnodup, hrest⟩
    refine ⟨⟨fun hin => ?_, hnodup⟩, hf, fun g hg hin => hrest g hg (List.mem_cons_of_mem _ hin)⟩
    obtain ⟨g, hg, heq⟩ := List.mem_map.1 hin
    exact hrest g hg (heq ▸ List.mem_cons_self)

theorem readFrom_eq_ok {device : Device} {seen : List RecordTag} {sectors : List Nat}
    {found : List Found} :
    readFrom device seen sectors = .ok found ↔
      (∀ sector ∈ sectors, Readable device sector) ∧
        found = sectors.filterMap (foundAt device) ∧
        (found.map fun f => f.record.tag).Nodup ∧ ∀ f ∈ found, f.record.tag ∉ seen := by
  induction sectors generalizing seen found with
  | nil =>
      rw [readFrom]
      constructor
      · intro h
        cases h
        exact ⟨fun _ h => (by cases h), rfl, List.nodup_nil, fun _ h => (by cases h)⟩
      · rintro ⟨-, rfl, -, -⟩
        rfl
  | cons sector sectors ih =>
      rw [List.forall_mem_cons, List.filterMap_cons]
      cases hread : device.read sector with
      | error e =>
          have hunreadable : ¬Readable device sector := by
            rintro ⟨content, record, hcontent, -⟩
            rw [hread] at hcontent
            cases hcontent
          simp [readFrom, hread, hunreadable]
      | ok content =>
          cases hrecord : Record.ofSector content with
          | error e =>
              have hunreadable : ¬Readable device sector := by
                rintro ⟨content', record, hcontent, hgood⟩
                rw [hread] at hcontent
                cases hcontent
                rw [hrecord] at hgood
                cases hgood
              simp [readFrom, hread, hrecord, hunreadable]
          | ok record =>
              -- the record at the front must be none that was seen, and none of the rest
              have hreadable : Readable device sector := ⟨content, record, hread, hrecord⟩
              rw [foundAt_of_read hread hrecord]
              cases record with
              | none => simp [readFrom, hread, hrecord, hreadable, ih]
              | some record =>
                  rw [readFrom_cons_of_record hread hrecord]
                  constructor
                  · rintro ⟨hseen, rest, hrest, rfl⟩
                    obtain ⟨hall, heq, htags⟩ := ih.1 hrest
                    exact ⟨⟨hreadable, hall⟩, congrArg _ heq, nodup_tags_cons.2 ⟨hseen, htags⟩⟩
                  · rintro ⟨⟨-, hall⟩, rfl, htags⟩
                    obtain ⟨hseen, htags⟩ := nodup_tags_cons.1 htags
                    exact ⟨hseen, _, ih.2 ⟨hall, rfl, htags⟩, rfl⟩

/-- No two records share a sector, and no two are records of the same thing. -/
structure Distinct (found : List Found) : Prop where
  sectors : (found.map Found.sector).Nodup
  tags : (found.map fun f => f.record.tag).Nodup

theorem mem_filterMap_foundAt {device : Device} {sectors : List Nat} {f : Found} :
    f ∈ sectors.filterMap (foundAt device) ↔
      f.sector ∈ sectors ∧ foundAt device f.sector = some f := by
  have hsector : ∀ sector, foundAt device sector = some f → f.sector = sector := by
    intro sector hat
    unfold foundAt at hat
    split at hat
    · cases hat
    · split at hat
      · cases hat
      · obtain ⟨record, -, rfl⟩ := Option.map_eq_some_iff.1 hat
        rfl
  rw [List.mem_filterMap]
  constructor
  · rintro ⟨sector, hin, hat⟩
    rw [hsector sector hat]
    exact ⟨hin, hat⟩
  · rintro ⟨hin, hat⟩
    exact ⟨f.sector, hin, hat⟩

/-- **What reading a medium gives, and when.** -/
theorem read_eq_ok {device : Device} {found : List Found} :
    read device = .ok found ↔
      (∀ sector < device.sectorCount, Readable device sector) ∧
        found = (List.range device.sectorCount).filterMap (foundAt device) ∧
        (found.map fun f => f.record.tag).Nodup := by
  unfold read
  rw [readFrom_eq_ok]
  simp

/-- The records on a medium are in different sectors. -/
theorem nodup_sectors_foundAt (device : Device) :
    (((List.range device.sectorCount).filterMap (foundAt device)).map Found.sector).Nodup := by
  -- sectors are read in ascending order
  have hpair := List.nodup_range (n := device.sectorCount)
  unfold List.Nodup at hpair ⊢
  rw [List.pairwise_map, List.pairwise_filterMap]
  refine hpair.imp ?_
  intro a b hne f hf g hg heq
  have hfa := @mem_filterMap_foundAt device [a] f
  have hgb := @mem_filterMap_foundAt device [b] g
  simp only [List.filterMap_cons, hf, hg, List.filterMap_nil, List.mem_singleton,
    true_iff] at hfa hgb
  exact hne (hfa.1.symm.trans (heq.trans hgb.1))

theorem distinct_of_read {device : Device} {found : List Found} (h : read device = .ok found) :
    Distinct found := by
  obtain ⟨-, rfl, htags⟩ := read_eq_ok.1 h
  exact ⟨nodup_sectors_foundAt device, htags⟩

/-! ### The lists of the kinds -/

section Kinds

variable {found : List Found}

theorem mem_leads {item : LeadItem} {sector : Nat} :
    (item, sector) ∈ leads found ↔ ⟨sector, .lead item⟩ ∈ found := by
  rw [leads, List.mem_mergeSort, List.mem_filterMap]
  constructor
  · rintro ⟨⟨sector', record⟩, hf, heq⟩
    cases record <;> simp at heq
    obtain ⟨rfl, rfl⟩ := heq
    exact hf
  · intro hf
    exact ⟨_, hf, rfl⟩

theorem mem_mains {item : MainItem} {sector : Nat} :
    (item, sector) ∈ mains found ↔ ⟨sector, .main item⟩ ∈ found := by
  rw [mains, List.mem_mergeSort, List.mem_filterMap]
  constructor
  · rintro ⟨⟨sector', record⟩, hf, heq⟩
    cases record <;> simp at heq
    obtain ⟨rfl, rfl⟩ := heq
    exact hf
  · intro hf
    exact ⟨_, hf, rfl⟩

theorem mem_backups {key : CycleKey} {info : BackupInfo} {sector : Nat} :
    (key, info, sector) ∈ backups found ↔ ⟨sector, .backup key info⟩ ∈ found := by
  rw [backups, List.mem_filterMap]
  constructor
  · rintro ⟨⟨sector', record⟩, hf, heq⟩
    cases record <;> simp at heq
    obtain ⟨rfl, rfl, rfl⟩ := heq
    exact hf
  · intro hf
    exact ⟨_, hf, rfl⟩

theorem mem_allocations {a : FoundExtents} :
    a ∈ allocations found ↔ ⟨a.sector, .allocation a.key a.sequence a.extents⟩ ∈ found := by
  rw [allocations, List.mem_filterMap]
  constructor
  · rintro ⟨⟨sector', record⟩, hf, heq⟩
    cases record <;> simp at heq
    subst heq
    exact hf
  · intro hf
    exact ⟨_, hf, rfl⟩

/-! ### The tags of the records -/

theorem lead_mem_tags {name : SetName} :
    .lead name ∈ found.map (fun f => f.record.tag) ↔ ∃ lead ∈ leads found, lead.1.name = name := by
  rw [List.mem_map]
  constructor
  · rintro ⟨⟨sector, record⟩, hf, htag⟩
    cases record <;> cases htag
    exact ⟨_, mem_leads.2 hf, rfl⟩
  · rintro ⟨⟨item, sector⟩, hin, rfl⟩
    exact ⟨_, mem_leads.1 hin, rfl⟩

theorem main_mem_tags {key : CycleKey} :
    .main key ∈ found.map (fun f => f.record.tag) ↔ ∃ main ∈ mains found, main.1.key = key := by
  rw [List.mem_map]
  constructor
  · rintro ⟨⟨sector, record⟩, hf, htag⟩
    cases record <;> cases htag
    exact ⟨_, mem_mains.2 hf, rfl⟩
  · rintro ⟨⟨item, sector⟩, hin, rfl⟩
    exact ⟨_, mem_mains.1 hin, rfl⟩

theorem backup_mem_tags {key : CycleKey} :
    .backup key ∈ found.map (fun f => f.record.tag) ↔ ∃ b ∈ backups found, b.1 = key := by
  rw [List.mem_map]
  constructor
  · rintro ⟨⟨sector, record⟩, hf, htag⟩
    cases record <;> cases htag
    exact ⟨_, mem_backups.2 hf, rfl⟩
  · rintro ⟨⟨key, info, sector⟩, hin, rfl⟩
    exact ⟨_, mem_backups.1 hin, rfl⟩

theorem allocation_mem_tags {key : CycleKey} {sequence : Nat} :
    .allocation key sequence ∈ found.map (fun f => f.record.tag) ↔
      ∃ a ∈ allocations found, a.key = key ∧ a.sequence = sequence := by
  rw [List.mem_map]
  constructor
  · rintro ⟨⟨sector, record⟩, hf, htag⟩
    cases record <;> cases htag
    exact ⟨⟨_, _, _, sector⟩, mem_allocations.2 hf, rfl, rfl⟩
  · rintro ⟨a, hin, rfl, rfl⟩
    exact ⟨_, mem_allocations.1 hin, rfl⟩

/-- The sectors of the records are those of the lead, identity, backup and allocation records. -/
theorem perm_sectors (found : List Found) :
    (found.map Found.sector).Perm ((leads found).map Prod.snd ++ ((mains found).map Prod.snd ++
      ((backups found).map (fun b => b.2.2) ++
        (allocations found).map FoundExtents.sector))) := by
  refine List.Perm.trans ?_ (List.Perm.append ((List.mergeSort_perm _ _).map Prod.snd).symm
    (List.Perm.append ((List.mergeSort_perm _ _).map Prod.snd).symm (List.Perm.refl _)))
  induction found with
  | nil => exact List.Perm.refl _
  | cons f found ih =>
      obtain ⟨sector, record⟩ := f
      cases record with
      | lead item => exact ih.cons sector
      | main item =>
          exact (ih.cons sector).trans List.perm_middle.symm
      | backup key info =>
          refine (ih.cons sector).trans (List.perm_middle.symm.trans ?_)
          exact List.Perm.append_left _ List.perm_middle.symm
      | allocation key sequence extents =>
          refine (ih.cons sector).trans (List.perm_middle.symm.trans ?_)
          refine List.Perm.append_left _ (List.perm_middle.symm.trans ?_)
          exact List.Perm.append_left _ List.perm_middle.symm

/-- Picking records whose tag is made from a key leaves each key once. -/
theorem Distinct.nodup_filterMap {α β : Type} (h : Distinct found) {pick : Found → Option α}
    {key : α → β} (tag : β → RecordTag)
    (htag : ∀ f a, pick f = some a → f.record.tag = tag (key a)) :
    ((found.filterMap pick).map key).Nodup := by
  have hpair := List.pairwise_map.1 h.tags
  refine List.pairwise_map.2 (List.pairwise_filterMap.2 (hpair.imp ?_))
  intro f g hne a ha b hb heq
  exact hne ((htag f a ha).trans ((congrArg tag heq).trans (htag g b hb).symm))

/-- Lead items come in the order of their names, no name twice. -/
theorem Distinct.pairwise_leads (h : Distinct found) :
    (leads found).Pairwise fun a b => compare a.1.name b.1.name = .lt := by
  refine pairwise_lt_mergeSort (fun lead : LeadItem × Nat => lead.1.name) ?_
  refine h.nodup_filterMap .lead ?_
  rintro ⟨sector, record⟩ lead hlead
  cases record <;> simp at hlead
  subst hlead
  rfl

/-- Main items come in the order of their names and numbers, no two alike. -/
theorem Distinct.pairwise_mains (h : Distinct found) :
    (mains found).Pairwise fun a b => compare a.1.key b.1.key = .lt := by
  refine pairwise_lt_mergeSort (fun main : MainItem × Nat => main.1.key) ?_
  refine h.nodup_filterMap .main ?_
  rintro ⟨sector, record⟩ main hmain
  cases record <;> simp at hmain
  subst hmain
  rfl

theorem Distinct.nodup_backups (h : Distinct found) : ((backups found).map Prod.fst).Nodup := by
  refine h.nodup_filterMap .backup ?_
  rintro ⟨sector, record⟩ backup hbackup
  cases record <;> simp at hbackup
  subst hbackup
  rfl

theorem Distinct.nodup_allocations (h : Distinct found) :
    ((allocations found).map fun a => (a.key, a.sequence)).Nodup := by
  refine h.nodup_filterMap (fun name => .allocation name.1 name.2) ?_
  rintro ⟨sector, record⟩ allocation hallocation
  cases record <;> simp at hallocation
  subst hallocation
  rfl

theorem mem_allocationsOf {key : CycleKey} {a : FoundExtents} :
    a ∈ allocationsOf found key ↔
      ⟨a.sector, .allocation a.key a.sequence a.extents⟩ ∈ found ∧ a.key = key := by
  rw [allocationsOf, List.mem_mergeSort, List.mem_filter, mem_allocations]
  simp

/-- The allocation records of a cycle are sorted by their numbers. -/
theorem allocationsOf_eq (found : List Found) (key : CycleKey) :
    allocationsOf found key = ((allocations found).filter fun a => a.key = key).mergeSort
      fun a b => (compare a.sequence b.sequence).isLE := by
  unfold allocationsOf
  congr 1
  funext a b
  rw [Bool.eq_iff_iff, decide_eq_true_iff]
  exact Nat.isLE_compare.symm

/-- The allocation records of a cycle come in the order of their numbers, no number twice. -/
theorem Distinct.pairwise_allocationsOf (h : Distinct found) (key : CycleKey) :
    (allocationsOf found key).Pairwise fun a b => compare a.sequence b.sequence = .lt := by
  rw [allocationsOf_eq]
  refine pairwise_lt_mergeSort FoundExtents.sequence ?_
  refine List.Nodup.of_map (fun n => (key, n)) ?_
  rw [List.map_map]
  have hkeys : ((allocations found).filter fun a => a.key = key).map
      ((fun n => (key, n)) ∘ FoundExtents.sequence) =
      ((allocations found).filter fun a => a.key = key).map fun a => (a.key, a.sequence) := by
    refine List.map_congr_left ?_
    intro a ha
    rw [of_decide_eq_true (List.mem_filter.1 ha).2]
    rfl
  rw [hkeys]
  exact h.nodup_allocations.sublist (List.filter_sublist.map _)

/-- The lead items in the order of their names, if these are all. -/
theorem Distinct.items_leads (h : Distinct found) {l : List LeadItem}
    (hsorted : l.Pairwise fun a b => compare a.name b.name = .lt)
    (hmem : ∀ item, item ∈ l ↔ ∃ sector, ⟨sector, .lead item⟩ ∈ found) :
    (leads found).map Prod.fst = l := by
  refine eq_of_pairwise_lt LeadItem.name (List.pairwise_map.2 h.pairwise_leads) hsorted ?_
  intro item
  rw [hmem, List.mem_map]
  constructor
  · rintro ⟨⟨item, sector⟩, hin, rfl⟩
    exact ⟨sector, mem_leads.1 hin⟩
  · rintro ⟨sector, hin⟩
    exact ⟨(item, sector), mem_leads.2 hin, rfl⟩

/-- The main items in the order of their names and numbers, if these are all. -/
theorem Distinct.items_mains (h : Distinct found) {l : List MainItem}
    (hsorted : l.Pairwise fun a b => compare a.key b.key = .lt)
    (hmem : ∀ item, item ∈ l ↔ ∃ sector, ⟨sector, .main item⟩ ∈ found) :
    (mains found).map Prod.fst = l := by
  refine eq_of_pairwise_lt MainItem.key (List.pairwise_map.2 h.pairwise_mains) hsorted ?_
  intro item
  rw [hmem, List.mem_map]
  constructor
  · rintro ⟨⟨item, sector⟩, hin, rfl⟩
    exact ⟨sector, mem_mains.1 hin⟩
  · rintro ⟨sector, hin⟩
    exact ⟨(item, sector), mem_mains.2 hin, rfl⟩

/-- The extents of a cycle, if these are all its allocation records in their order. -/
theorem Distinct.extents_allocationsOf (h : Distinct found) {key : CycleKey}
    {l : List (Nat × List Extent)} (hsorted : l.Pairwise fun a b => compare a.1 b.1 = .lt)
    (hmem : ∀ n es, (n, es) ∈ l ↔ ∃ sector, ⟨sector, .allocation key n es⟩ ∈ found) :
    (allocationsOf found key).flatMap FoundExtents.extents = l.flatMap Prod.snd := by
  have hparts : (allocationsOf found key).map (fun a => (a.sequence, a.extents)) = l := by
    refine eq_of_pairwise_lt Prod.fst (List.pairwise_map.2 (h.pairwise_allocationsOf key)) hsorted ?_
    rintro ⟨n, es⟩
    rw [hmem, List.mem_map]
    constructor
    · rintro ⟨a, hin, heq⟩
      obtain ⟨hrecord, hkey⟩ := mem_allocationsOf.1 hin
      cases heq
      exact ⟨a.sector, hkey ▸ hrecord⟩
    · rintro ⟨sector, hin⟩
      exact ⟨⟨key, n, es, sector⟩, mem_allocationsOf.2 ⟨hin, rfl⟩, rfl⟩
  rw [← hparts, List.flatMap_map]

/-- The backup information of a cycle. -/
theorem Distinct.lookup_backups (h : Distinct found) {sector : Nat} {key : CycleKey}
    {info : BackupInfo} (hin : ⟨sector, .backup key info⟩ ∈ found) :
    (backups found).lookup key = some (info, sector) :=
  (lookup_eq_some_iff h.nodup_backups).2 (mem_backups.2 hin)

end Kinds

end FileDirectory.Recovery
