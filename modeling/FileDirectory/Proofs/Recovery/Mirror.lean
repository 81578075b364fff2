/-
**What recovery makes of a medium that carries a catalog.**

The ledger of a medium that carries a catalog has the entries of each file set: the record of its lead
item and the records of its cycles.  Allocation records are numbered in six bits.  So the records of
a file set cohere exactly if none of its cycles takes more than sixty-four allocation records, and
then the lead item and the live cycles are left of the set, their tables built again.

Main definitions:

* `FileDirectory.Store.entries` — the records of a file set in its sectors;
* `FileDirectory.FileSet.Numbered` — no cycle has more extents than allocation records can number;
* `FileDirectory.FileSet.Attributable` — the records of a file set can be attributed to it;
* `FileDirectory.FileSet.left`, `FileDirectory.Catalog.left` — what is left after a stop;
* `FileDirectory.FileSet.rebuilt`, `FileDirectory.Catalog.rebuilt` — the same sets, their tables built
  again.

Main results:

* `FileDirectory.Store.Carries.holds` — the ledger of a medium that carries a catalog;
* `FileDirectory.Store.coherent_entries_iff` — when the records of a file set cohere;
* `FileDirectory.Store.remains_entries` — what they leave of the set;
* `FileDirectory.Store.Carries.recover_iff` — when the image that carries a catalog is accepted, and
  the catalog that is recovered.
-/

import FileDirectory.Proofs.Catalog.Partition
import FileDirectory.Proofs.Catalog.Recordable
import FileDirectory.Proofs.Pack.Rebuilding
import FileDirectory.Proofs.Recovery.Ledger
import FileDirectory.Proofs.Store.Mirrored
import Mathlib.Data.List.Flatten

set_option autoImplicit false

namespace FileDirectory

open Recovery

namespace Store

/-! ### Entries -/

/-- The records of a cycle in its sectors. -/
def cycleEntries (sectors : List Nat) (m : MainItem) : List Found :=
  (sectors.zip m.readings).map fun entry => ⟨entry.1, entry.2⟩

/-- The records of a file set in its sectors. -/
def entries (s : Store) (set : FileSet) : List Found :=
  (s.placement set.name).lead.toList.map (⟨·, .lead set.lead.stored⟩) ++
    set.cycles.flatMap fun d => cycleEntries ((s.placement set.name).sectorsOf d.file) d.item

theorem sectors_cycleEntries {sectors : List Nat} {m : MainItem}
    (h : sectors.length = m.sectorsNeeded) :
    (cycleEntries sectors m).map Found.sector = sectors := by
  unfold cycleEntries
  rw [List.map_map]
  exact List.map_fst_zip (Nat.le_of_eq (by rw [m.length_readings, h]))

theorem records_cycleEntries {sectors : List Nat} {m : MainItem}
    (h : sectors.length = m.sectorsNeeded) :
    (cycleEntries sectors m).map Found.record = m.readings := by
  unfold cycleEntries
  rw [List.map_map]
  exact List.map_snd_zip (Nat.le_of_eq (by rw [m.length_readings, h]))

/-- Every cycle of a file set has a sector for each of its records, and the lead item has one. -/
structure Whole (s : Store) (set : FileSet) : Prop where
  files : (s.placement set.name).cycles.map Prod.fst = set.files
  lead : (s.placement set.name).lead ≠ none
  length : ∀ d ∈ set.cycles,
    ((s.placement set.name).sectorsOf d.file).length = d.item.sectorsNeeded

theorem Recorded.length_sectorsOf {s : Store} {set : FileSet} {d : FileCycle}
    (h : s.Recorded set d) :
    ((s.placement set.name).sectorsOf d.file).length = d.item.sectorsNeeded := by
  obtain ⟨-, sectors, hlookup, hlength, -⟩ := h
  rw [Placement.sectorsOf, hlookup]
  exact hlength

/-- A medium that mirrors a catalog that can be recorded carries it. -/
theorem Mirrors.carries {c : Catalog} {s : Store} (h : s.Mirrors c) (hr : c.Recordable) :
    Carries c s where
  keeps := h.keeps
  suspect := h.suspect
  recorded := fun set hset d hd => h.recorded hset hd (hr.items set hset d hd).disable
  vacant := fun sector hlt hout => ⟨_, h.clear sector hlt hout, Record.ofSector_zero⟩

theorem UpToDate.whole {c : Catalog} {s : Store} (h : s.UpToDate c) (hc : c.Indexed) {set : FileSet}
    (hset : set ∈ c.sets) : Whole s set := by
  refine ⟨h.keeps.files set hset, ?_, fun d hd => (h.recorded set hset d hd).length_sectorsOf⟩
  obtain ⟨d, hd⟩ := List.exists_mem_of_ne_nil _ (hc.nonempty set hset)
  obtain ⟨l, hl, -⟩ := (h.recorded set hset d hd).lead
  rw [hl]
  exact Option.some_ne_none l

theorem Carries.whole {c : Catalog} {s : Store} (h : s.Carries c) (hc : c.Indexed) {set : FileSet}
    (hset : set ∈ c.sets) : Whole s set := h.upToDate.whole hc hset

theorem Whole.sectors_entries {s : Store} {set : FileSet} (h : Whole s set)
    (hfiles : set.files.Nodup) :
    (s.entries set).map Found.sector = (s.placement set.name).sectors := by
  have hcycles : (set.cycles.flatMap fun d => cycleEntries
      ((s.placement set.name).sectorsOf d.file) d.item).map Found.sector =
      (s.placement set.name).cycles.flatMap Prod.snd := by
    have hnodup : ((s.placement set.name).cycles.map Prod.fst).Nodup := by rwa [h.files]
    rw [List.map_flatMap, ← Placement.flatMap_sectorsOf hnodup, h.files, FileSet.files,
      List.flatMap_map]
    refine List.flatMap_congr ?_
    intro d hd
    exact sectors_cycleEntries (h.length d hd)
  unfold entries Placement.sectors
  rw [List.map_append, hcycles, List.map_map]
  congr 1
  exact List.map_id _

/-- The records of a file set: that of its lead item and those of its cycles. -/
theorem Whole.records_entries {s : Store} {set : FileSet} (h : Whole s set) :
    (s.entries set).map Found.record =
      .lead set.lead.stored :: set.cycles.flatMap fun d => d.item.readings := by
  obtain ⟨l, hl⟩ := Option.ne_none_iff_exists'.1 h.lead
  unfold entries
  rw [hl, List.map_append, List.map_flatMap]
  refine congrArg (Record.lead set.lead.stored :: ·) (List.flatMap_congr ?_)
  intro d hd
  exact records_cycleEntries (h.length d hd)

/-- The entries of the file sets are in the sectors that belong to them. -/
theorem UpToDate.perm_sectors {c : Catalog} {s : Store} (h : s.UpToDate c) (hc : c.Indexed) :
    ((c.sets.flatMap s.entries).map Found.sector).Perm s.owned := by
  have howned := perm_owned_names h.keeps.nodup_names hc.ordered.nodup_names
    fun name hname => List.mem_map.2 ((h.keeps.names name).1 hname)
  rw [List.flatMap_map] at howned
  refine List.Perm.trans (List.Perm.of_eq ?_) howned.symm
  rw [List.map_flatMap]
  refine List.flatMap_congr ?_
  intro set hset
  exact (h.whole hc hset).sectors_entries (hc.nodup set hset)

/-- What two lists that stand beside one another are both told from. -/
theorem exists_of_mem_zip {α β γ δ ε : Type} {f : α → δ} {g : β → δ} {h : β → ε} {k : γ → ε}
    {as : List α} {bs : List β} {cs : List γ} (hfirst : as.map f = bs.map g)
    (hsecond : bs.map h = cs.map k) {a : α} {c : γ} (hin : (a, c) ∈ as.zip cs) :
    ∃ b, f a = g b ∧ h b = k c := by
  induction as generalizing bs cs with
  | nil => cases hin
  | cons a' as ih =>
      cases bs with
      | nil => cases hfirst
      | cons b bs =>
          cases cs with
          | nil => cases hsecond
          | cons c' cs =>
              obtain ⟨ha, has⟩ := List.cons.inj hfirst
              obtain ⟨hc, hcs⟩ := List.cons.inj hsecond
              rcases List.mem_cons.1 hin with heq | hin
              · cases heq
                exact ⟨b, ha, hc⟩
              · exact ih has hcs hin

/-- The entries of the file sets are on the medium. -/
theorem UpToDate.read_of_mem {c : Catalog} {s : Store} (h : s.UpToDate c) (hc : c.Indexed)
    {f : Found} (hf : f ∈ c.sets.flatMap s.entries) :
    ∃ content, s.device.copy.read f.sector = .ok content ∧
      Record.ofSector content = .ok (some f.record) := by
  obtain ⟨set, hset, hin⟩ := List.mem_flatMap.1 hf
  rw [Device.read_copy]
  rcases List.mem_append.1 hin with hin | hin
  · obtain ⟨l, hl, rfl⟩ := List.mem_map.1 hin
    rw [Option.mem_toList] at hl
    obtain ⟨d, hd⟩ := List.exists_mem_of_ne_nil _ (hc.nonempty set hset)
    obtain ⟨l', hl', hread⟩ := (h.recorded set hset d hd).lead
    obtain rfl : l = l' := Option.some.inj (hl.symm.trans hl')
    exact ⟨_, hread, Record.ofSector_record _ _ _⟩
  · obtain ⟨d, hd, hentry⟩ := List.mem_flatMap.1 hin
    obtain ⟨-, sectors, hlookup, hlength, hreads⟩ := h.recorded set hset d hd
    rw [shown_of_suspect_eq_nil h.suspect] at hreads
    rw [Placement.sectorsOf, hlookup, Option.getD_some] at hentry
    obtain ⟨⟨sector, record⟩, hzip, rfl⟩ := List.mem_map.1 hentry
    obtain ⟨content, hread, hrecord⟩ :=
      exists_of_mem_zip hreads (Record.ofSector_records d.item) hzip
    exact ⟨content, hread, hrecord⟩

/-- **The ledger of a medium that carries a catalog** has the entries of each file set. -/
theorem Carries.holds {c : Catalog} {s : Store} (h : s.Carries c) (hc : c.Indexed) :
    Holds s.device.copy (c.sets.flatMap s.entries) := by
  have hsectors := h.upToDate.perm_sectors hc
  refine ⟨hsectors.nodup_iff.2 h.keeps.nodup_owned, fun f hf => h.upToDate.read_of_mem hc hf, ?_⟩
  intro sector hlt hout
  exact h.vacant sector hlt fun hin => hout (hsectors.mem_iff.2 hin)

end Store

/-! ### Readings by their kinds -/

/-- The cycle that a tag is a tag of. -/
def RecordTag.key? : RecordTag → Option CycleKey
  | .lead _ => none
  | .main key | .backup key | .allocation key _ => some key

namespace MainItem

variable {m item : MainItem} {r : Record}

theorem mem_readings :
    r ∈ m.readings ↔ r = .main m.stored ∨ r = .backup m.key.stored m.backup.stored ∨
      ∃ i, ∃ h : i < (extentGroups m.table.extents).length,
        r = .allocation m.key.stored (i % 2 ^ 6)
          ((extentGroups m.table.extents)[i].map Extent.stored) := by
  unfold readings
  rw [List.mem_cons, List.mem_cons, List.mem_mapIdx]
  refine or_congr_right (or_congr_right ?_)
  simp only [eq_comm]

/-- The allocation records as they read back, by their sequence numbers. -/
def storedGroups (m : MainItem) : List (Nat × List Extent) :=
  (extentGroups m.table.extents).mapIdx fun i extents => (i % 2 ^ 6, extents.map Extent.stored)

theorem lead_notMem_readings (lead : LeadItem) : .lead lead ∉ m.readings := by
  simp [mem_readings]

theorem main_mem_readings : .main item ∈ m.readings ↔ item = m.stored := by
  simp [mem_readings]

theorem backup_mem_readings {key : CycleKey} {info : BackupInfo} :
    .backup key info ∈ m.readings ↔ key = m.key.stored ∧ info = m.backup.stored := by
  simp [mem_readings]

theorem allocation_mem_readings {key : CycleKey} {n : Nat} {es : List Extent} :
    .allocation key n es ∈ m.readings ↔ key = m.key.stored ∧ (n, es) ∈ m.storedGroups := by
  rw [mem_readings, storedGroups, List.mem_mapIdx]
  constructor
  · rintro (heq | heq | ⟨i, hi, heq⟩)
    · cases heq
    · cases heq
    · obtain ⟨rfl, rfl, rfl⟩ := Record.allocation.inj heq
      exact ⟨rfl, i, hi, rfl⟩
  · rintro ⟨rfl, i, hi, heq⟩
    obtain ⟨rfl, rfl⟩ := Prod.mk.inj heq
    exact Or.inr (Or.inr ⟨i, hi, rfl⟩)

theorem key_tag_readings (h : r ∈ m.readings) : r.tag.key? = some m.key.stored := by
  obtain rfl | rfl | ⟨i, hi, rfl⟩ := mem_readings.1 h <;> rfl

theorem set_readings (h : r ∈ m.readings) : r.set = m.key.stored.set := by
  obtain rfl | rfl | ⟨i, hi, rfl⟩ := mem_readings.1 h <;> rfl

end MainItem

namespace Store

section Entries

variable {s : Store} {set : FileSet} (h : Whole s set)

include h

theorem exists_mem_entries {r : Record} :
    (∃ sector, ⟨sector, r⟩ ∈ s.entries set) ↔
      r = .lead set.lead.stored ∨ ∃ d ∈ set.cycles, r ∈ d.item.readings := by
  have hrecords : r ∈ (s.entries set).map Found.record ↔
      r = .lead set.lead.stored ∨ ∃ d ∈ set.cycles, r ∈ d.item.readings := by
    rw [h.records_entries, List.mem_cons, List.mem_flatMap]
  rw [← hrecords, List.mem_map]
  constructor
  · rintro ⟨sector, hin⟩
    exact ⟨_, hin, rfl⟩
  · rintro ⟨⟨sector, record⟩, hin, rfl⟩
    exact ⟨sector, hin⟩

theorem exists_lead_entries {item : LeadItem} :
    (∃ sector, ⟨sector, .lead item⟩ ∈ s.entries set) ↔ item = set.lead.stored := by
  rw [exists_mem_entries h]
  simp [MainItem.lead_notMem_readings]

theorem exists_main_entries {item : MainItem} :
    (∃ sector, ⟨sector, .main item⟩ ∈ s.entries set) ↔ ∃ d ∈ set.cycles, item = d.item.stored := by
  rw [exists_mem_entries h]
  simp [MainItem.main_mem_readings]

theorem exists_backup_entries {key : CycleKey} {info : BackupInfo} :
    (∃ sector, ⟨sector, .backup key info⟩ ∈ s.entries set) ↔
      ∃ d ∈ set.cycles, key = d.item.key.stored ∧ info = d.item.backup.stored := by
  rw [exists_mem_entries h]
  simp [MainItem.backup_mem_readings]

theorem exists_allocation_entries {key : CycleKey} {n : Nat} {es : List Extent} :
    (∃ sector, ⟨sector, .allocation key n es⟩ ∈ s.entries set) ↔
      ∃ d ∈ set.cycles, key = d.item.key.stored ∧ (n, es) ∈ d.item.storedGroups := by
  rw [exists_mem_entries h]
  simp [MainItem.allocation_mem_readings]

end Entries

end Store

/-! ### When they cohere -/

/-- The number of extents whose allocation records can be told apart: sixty-four records of seven. -/
def maxExtents : Nat := extentsPerRecord * 2 ^ 6

@[simp] theorem maxExtents_eq : maxExtents = 448 := rfl

theorem length_extentGroups_le_iff (es : List Extent) :
    (extentGroups es).length ≤ 2 ^ 6 ↔ es.length ≤ maxExtents := by
  have hseven : extentsPerRecord = 7 := rfl
  rw [length_extentGroups, maxExtents, hseven]
  omega

/-- **The records of a cycle are told apart exactly if it has no more than 448 extents.** -/
theorem MainItem.nodup_tags_readings (m : MainItem) :
    (m.readings.map Record.tag).Nodup ↔ m.table.extents.length ≤ maxExtents := by
  have htags : m.readings.map Record.tag = .main m.key.stored :: .backup m.key.stored ::
      (List.range (extentGroups m.table.extents).length).map fun i =>
        .allocation m.key.stored (i % 2 ^ 6) := by
    unfold readings
    rw [List.map_cons, List.map_cons]
    refine congrArg _ (congrArg _ ?_)
    refine List.ext_getElem (by simp) ?_
    intro i hi₁ hi₂
    simp [Record.tag]
  rw [htags, List.nodup_cons, List.nodup_cons, ← length_extentGroups_le_iff,
    List.nodup_map_iff_inj_on List.nodup_range]
  generalize (extentGroups m.table.extents).length = n
  constructor
  · rintro ⟨-, -, hinj⟩
    by_contra hlt
    -- the records numbered 0 and 64 have the same number
    have hzero := hinj 0 (List.mem_range.2 (by omega)) (2 ^ 6) (List.mem_range.2 (by omega)) rfl
    exact absurd hzero (by decide)
  · intro hle
    refine ⟨by simp, by simp, ?_⟩
    intro i hi j hj heq
    rw [List.mem_range] at hi hj
    have hmod : i % 2 ^ 6 = j % 2 ^ 6 := (RecordTag.allocation.inj heq).2
    rwa [Nat.mod_eq_of_lt (by omega), Nat.mod_eq_of_lt (by omega)] at hmod

/-- No cycle of a file set has more extents than its allocation records can number. -/
def FileSet.Numbered (set : FileSet) : Prop :=
  ∀ d ∈ set.cycles, d.item.table.extents.length ≤ maxExtents

/-- The records of a file set can be attributed to it: its lead item reads back as it is, and its
cycles read back under the names and in the states that they have. -/
structure FileSet.Attributable (set : FileSet) : Prop where
  lead : set.lead.stored = set.lead
  key : ∀ d ∈ set.cycles, d.item.key.stored = d.item.key
  state : ∀ d ∈ set.cycles, d.item.descriptor.state = d.item.state
  keys : (set.cycles.map fun d => d.item.key).Nodup

theorem Catalog.RecordableSet.attributable {set : FileSet} (h : Catalog.RecordableSet set) :
    set.Attributable where
  lead := h.lead.stored_eq
  key := fun d hd => (h.items d hd).key
  state := fun d hd => (h.items d hd).state
  keys := h.keys

namespace FileSet.Attributable

variable {set : FileSet}

theorem name (h : set.Attributable) : set.lead.name.stored = set.lead.name := by
  have hname : set.lead.stored.name = set.lead.name := congrArg LeadItem.name h.lead
  exact hname

/-- Cycles are recorded under the names that they have. -/
theorem nodup_stored (h : set.Attributable) :
    (set.cycles.map fun d => d.item.key.stored).Nodup := by
  have hkeys : (set.cycles.map fun d => d.item.key.stored) = set.cycles.map fun d => d.item.key :=
    List.map_congr_left h.key
  rw [hkeys]
  exact h.keys

end FileSet.Attributable

namespace Store

variable {s : Store} {set : FileSet}

theorem nodup_tags_entries (h : Whole s set) (hr : set.Attributable) :
    ((s.entries set).map fun f => f.record.tag).Nodup ↔ set.Numbered := by
  have htags : ((s.entries set).map fun f => f.record.tag) =
      .lead set.lead.stored.name :: set.cycles.flatMap fun d => d.item.readings.map Record.tag := by
    have hmap := congrArg (List.map Record.tag) h.records_entries
    rw [List.map_map, List.map_cons, List.map_flatMap] at hmap
    exact hmap
  have hkey : ∀ d tag, tag ∈ (FileCycle.item d).readings.map Record.tag →
      tag.key? = some d.item.key.stored := by
    intro d tag htag
    obtain ⟨r, hr, rfl⟩ := List.mem_map.1 htag
    exact MainItem.key_tag_readings hr
  rw [htags, List.nodup_cons, List.nodup_flatMap]
  constructor
  · rintro ⟨-, heach, -⟩ d hd
    exact (MainItem.nodup_tags_readings _).1 (heach d hd)
  · intro hnumbered
    refine ⟨?_, fun d hd => (MainItem.nodup_tags_readings _).2 (hnumbered d hd), ?_⟩
    · intro hin
      obtain ⟨d, -, htag⟩ := List.mem_flatMap.1 hin
      cases hkey d _ htag
    · refine (List.pairwise_map.1 hr.nodup_stored).imp ?_
      intro d e hne tag hd he
      exact hne (Option.some.inj ((hkey d tag hd).symm.trans (hkey e tag he)))

/-- The records of a file set lack nothing. -/
theorem complete_entries (h : Whole s set) (hr : set.Attributable)
    (hnamed : ∀ d ∈ set.cycles, d.item.key.set = set.name) : Complete (s.entries set) := by
  refine ⟨?_, ?_, ?_⟩
  · rintro ⟨item, sector⟩ hin
    obtain ⟨d, hd, rfl⟩ := (exists_main_entries h).1 ⟨sector, mem_mains.1 hin⟩
    obtain ⟨other, hother⟩ := (exists_backup_entries h).2 ⟨d, hd, rfl, rfl⟩
    exact ⟨_, mem_backups.2 hother, rfl⟩
  · rintro ⟨item, sector⟩ hin
    obtain ⟨d, hd, rfl⟩ := (exists_main_entries h).1 ⟨sector, mem_mains.1 hin⟩
    obtain ⟨other, hother⟩ := (exists_lead_entries h).2 rfl
    refine ⟨_, mem_leads.2 hother, ?_⟩
    show set.lead.stored.name = d.item.key.stored.set
    rw [hr.key d hd, hnamed d hd]
    exact hr.name
  · intro a ha
    obtain ⟨d, hd, hkey, -⟩ := (exists_allocation_entries h).1 ⟨_, mem_allocations.1 ha⟩
    obtain ⟨other, hother⟩ := (exists_main_entries h).2 ⟨d, hd, rfl⟩
    exact ⟨_, mem_mains.2 hother, hkey.symm⟩

/-- **The records of a file set cohere exactly if its allocation records can be numbered.** -/
theorem coherent_entries_iff (h : Whole s set) (hr : set.Attributable)
    (hnamed : ∀ d ∈ set.cycles, d.item.key.set = set.name) :
    Coherent (s.entries set) ↔ set.Numbered := by
  rw [← nodup_tags_entries h hr]
  exact ⟨fun hc => hc.tags, fun htags => ⟨htags, complete_entries h hr hnamed⟩⟩

end Store

/-! ### What they leave -/

/-- A main item as recovery takes it over from its records. -/
def MainItem.left (m : MainItem) : MainItem :=
  afterStop { m.stored with backup := m.backup.stored, table := m.table }

@[simp] theorem MainItem.table_left (m : MainItem) : m.left.table = m.table := by
  simp only [left, afterStop]

theorem MainItem.key_left (m : MainItem) : m.left.key = m.key.stored := by
  simp only [left, afterStop, stored]

theorem MainItem.state_left (m : MainItem) : m.left.state = m.descriptor.state := by
  simp only [left, afterStop, stored]

/-- A main item once its table has been built again from its own extents. -/
def MainItem.rebuilt (m : MainItem) : MainItem := { m with table := m.table.rebuilt }

/-- A cycle once its table has been built again from its own extents. -/
def FileCycle.rebuilt (c : FileCycle) : FileCycle := { c with item := c.item.rebuilt }

/-- The cycles of a file set by number. -/
def FileSet.byNumber (set : FileSet) : List FileCycle :=
  set.cycles.mergeSort fun a b => (compare a.item.key b.item.key).isLE

/-- What is left of a file set after a stop: its lead item, and its live cycles by number; nothing if
it has no live cycle. -/
def FileSet.left (set : FileSet) : Option Remains :=
  let items := (set.byNumber.filter fun d => d.item.state = .live).map fun d => d.item.left
  if items = [] then none else some ⟨{ set.lead with plusOneExists := false }, items⟩

/-- A file set once the tables of its cycles have been built again from their own extents. -/
def FileSet.rebuilt (set : FileSet) : FileSet :=
  { set with cycles := set.cycles.map FileCycle.rebuilt }

/-- A table of which no two extents can be merged is built again as it was. -/
theorem FileSet.rebuilt_eq {set : FileSet} (h : ∀ d ∈ set.cycles, d.item.table.Canonical) :
    set.rebuilt = set := by
  have hcycles : set.cycles.map FileCycle.rebuilt = set.cycles := by
    refine (List.map_congr_left ?_).trans (List.map_id _)
    intro d hd
    rw [FileCycle.rebuilt, MainItem.rebuilt, ExtentTable.rebuilt, ExtentTable.foldl_insert (h d hd)]
    rfl
  rw [rebuilt, hcycles]

theorem FileSet.byNumber_rebuilt (set : FileSet) :
    set.rebuilt.byNumber = set.byNumber.map FileCycle.rebuilt := by
  unfold byNumber rebuilt
  rw [List.map_mergeSort]
  intro a _ b _
  rfl

/-- Extents on a pack that words can number are recorded as they are, if words can number the file
tracks that they start at. -/
theorem Catalog.Divided.stored_extent {c : Catalog} (h : c.Divided)
    (hcapacity : c.space.capacity ≤ Word.maxValue) {set : FileSet} (hset : set ∈ c.sets)
    {d : FileCycle} (hd : d ∈ set.cycles) {e : Extent} (he : e ∈ d.item.table.extents)
    (hfile : e.fileTrack < 2 ^ 36) : e.stored = e := by
  have hmax : Word.maxValue = 2 ^ 36 - 1 := rfl
  have hpos := (h.ascending set hset d hd).nonempty e he
  have hpack : e.packTrack + e.count - 1 < c.space.capacity := by
    refine h.track_lt hset _ (FileSet.subset_packTracks hd _ ?_)
    refine mem_tracksIn.2 ⟨e.packRegion, List.mem_map_of_mem he, ?_⟩
    have hfirst : e.packRegion.first = e.packTrack := rfl
    have hregion : e.packRegion.limit = e.packTrack + e.count := rfl
    rw [Region.mem_iff]
    omega
  have htrack : e.packTrack < 2 ^ 36 := by omega
  have hcount : e.count < 2 ^ 36 := by omega
  rw [Extent.stored, Nat.mod_eq_of_lt hfile, Nat.mod_eq_of_lt htrack, Nat.mod_eq_of_lt hcount]

/-- Extents of the catalog are recorded as they are. -/
theorem Catalog.Partitioned.stored_extent {c : Catalog} (h : c.Partitioned) {set : FileSet}
    (hset : set ∈ c.sets) {d : FileCycle} (hd : d ∈ set.cycles) {e : Extent}
    (he : e ∈ d.item.table.extents) : e.stored = e := by
  obtain ⟨hcanonical, hbounded⟩ := h.tables set hset d hd
  have hmax : Word.maxValue = 2 ^ 36 - 1 := rfl
  have hpos := hcanonical.nonempty e he
  have hfirst := hbounded e.fileTrack
    (ExtentTable.mem_fileTracks.2 ⟨e, he, Nat.le_refl _, Nat.lt_add_of_pos_right hpos⟩)
  exact h.divided.stored_extent h.capacity hset hd he (by omega)

namespace Store

section Left

variable {s : Store} {set : FileSet}

/-- The extents of a cycle are found in the order of its table. -/
theorem extents_allocationsOf_entries (h : Whole s set) (hr : set.Attributable)
    (hnumbered : set.Numbered) (hdistinct : Distinct (s.entries set)) {d : FileCycle}
    (hd : d ∈ set.cycles) (hextents : ∀ e ∈ d.item.table.extents, e.stored = e) :
    (allocationsOf (s.entries set) d.item.stored.key).flatMap FoundExtents.extents =
      d.item.table.extents := by
  have hgroups := (length_extentGroups_le_iff d.item.table.extents).2 (hnumbered d hd)
  rw [hdistinct.extents_allocationsOf (l := d.item.storedGroups)]
  · have hsnd : d.item.storedGroups.flatMap Prod.snd =
        ((extentGroups d.item.table.extents).flatten).map Extent.stored := by
      rw [MainItem.storedGroups, List.map_flatten, List.flatMap_def]
      congr 1
      refine List.ext_getElem (by simp) ?_
      intro i hi₁ hi₂
      simp
    rw [hsnd, (extentGroups_spec _).1]
    exact (List.map_congr_left hextents).trans (List.map_id _)
  · -- there are no more than sixty-four of them, so that their numbers tell their order
    refine List.pairwise_iff_getElem.2 ?_
    unfold MainItem.storedGroups
    intro i j hi hj hlt
    rw [List.length_mapIdx] at hi hj
    rw [List.getElem_mapIdx, List.getElem_mapIdx]
    dsimp only
    rw [Nat.mod_eq_of_lt (by omega), Nat.mod_eq_of_lt (by omega)]
    exact Nat.compare_eq_lt.2 hlt
  · intro n es
    rw [exists_allocation_entries h]
    constructor
    · intro hin
      exact ⟨d, hd, rfl, hin⟩
    · rintro ⟨e, he, hkey, hin⟩
      obtain rfl : d = e := List.inj_on_of_nodup_map hr.nodup_stored hd he hkey
      exact hin

/-- A main item is completed by its own records. -/
theorem completed_entries (h : Whole s set) (hr : set.Attributable)
    (hnumbered : set.Numbered) (hdistinct : Distinct (s.entries set)) {d : FileCycle}
    (hd : d ∈ set.cycles) (hextents : ∀ e ∈ d.item.table.extents, e.stored = e) :
    completed (s.entries set) d.item.stored =
      { d.item.stored with backup := d.item.backup.stored, table := d.item.table.rebuilt } := by
  obtain ⟨sector, hbackup⟩ := (exists_backup_entries h).2 ⟨d, hd, rfl, rfl⟩
  have hlookup : ((backups (s.entries set)).lookup d.item.stored.key).map Prod.fst =
      some d.item.backup.stored := by
    have hkey : d.item.stored.key = d.item.key.stored := rfl
    rw [hkey, hdistinct.lookup_backups hbackup]
    rfl
  unfold completed
  rw [hlookup, extents_allocationsOf_entries h hr hnumbered hdistinct hd hextents]
  rfl

/-- The lead item that is recorded for a file set. -/
theorem items_leads_entries (h : Whole s set) (hdistinct : Distinct (s.entries set)) :
    (leads (s.entries set)).map Prod.fst = [set.lead.stored] := by
  refine hdistinct.items_leads (List.pairwise_singleton _ _) ?_
  intro item
  rw [exists_lead_entries h, List.mem_singleton]

theorem mem_byNumber {d : FileCycle} : d ∈ set.byNumber ↔ d ∈ set.cycles := List.mem_mergeSort

/-- The main items that are recorded for a file set, by number. -/
theorem items_mains_entries (h : Whole s set) (hr : set.Attributable)
    (hdistinct : Distinct (s.entries set)) :
    (mains (s.entries set)).map Prod.fst = set.byNumber.map fun d => d.item.stored := by
  refine hdistinct.items_mains ?_ ?_
  · have hsorted := pairwise_lt_mergeSort (fun d : FileCycle => d.item.key) hr.keys
    refine List.pairwise_map.2 ((List.Pairwise.and_mem.1 hsorted).imp ?_)
    rintro a b ⟨ha, hb, hlt⟩
    have hkeyA := hr.key a (List.mem_mergeSort.1 ha)
    have hkeyB := hr.key b (List.mem_mergeSort.1 hb)
    show compare a.item.key.stored b.item.key.stored = .lt
    rw [hkeyA, hkeyB]
    exact hlt
  · intro item
    rw [exists_main_entries h, List.mem_map]
    constructor
    · rintro ⟨d, hd, rfl⟩
      exact ⟨d, mem_byNumber.1 hd, rfl⟩
    · rintro ⟨d, hd, rfl⟩
      exact ⟨d, mem_byNumber.2 hd, rfl⟩

/-- A main item is recorded under its file set and in its state. -/
theorem liveIn_stored (hr : set.Attributable)
    (hnamed : ∀ d ∈ set.cycles, d.item.key.set = set.name) {d : FileCycle} (hd : d ∈ set.cycles) :
    liveIn set.lead.stored.name d.item.stored = decide (d.item.state = .live) := by
  have hset : d.item.key.stored.set = set.lead.name.stored := by
    rw [hr.key d hd, hnamed d hd]
    exact hr.name.symm
  have hstate := hr.state d hd
  have hkey : d.item.stored.key = d.item.key.stored := rfl
  have hname : set.lead.stored.name = set.lead.name.stored := rfl
  have hdescriptor : d.item.stored.state = d.item.descriptor.state := rfl
  rw [liveIn, hkey, hname, hdescriptor, hset, hstate, decide_eq_true rfl, Bool.true_and]

/-- **What the records of a file set leave of it**, the tables of its cycles being built again. -/
theorem remains_entries (h : Whole s set) (hr : set.Attributable)
    (hnamed : ∀ d ∈ set.cycles, d.item.key.set = set.name) (hnumbered : set.Numbered)
    (hdistinct : Distinct (s.entries set))
    (hextents : ∀ d ∈ set.cycles, ∀ e ∈ d.item.table.extents, e.stored = e) :
    remains (s.entries set) = set.rebuilt.left.toList := by
  have hitems : ((set.byNumber.map fun d => d.item.stored).filter
      (liveIn set.lead.stored.name)).map (fun item =>
        afterStop (completed (s.entries set) item)) =
      (set.rebuilt.byNumber.filter fun d => d.item.state = .live).map fun d => d.item.left := by
    rw [FileSet.byNumber_rebuilt, List.filter_map, List.filter_map, List.map_map, List.map_map]
    have hfilter : set.byNumber.filter (liveIn set.lead.stored.name ∘ fun d => d.item.stored) =
        set.byNumber.filter ((fun d => decide (d.item.state = .live)) ∘ FileCycle.rebuilt) := by
      refine List.filter_congr ?_
      intro d hd
      have hstate : d.rebuilt.item.state = d.item.state := rfl
      rw [Function.comp_apply, Function.comp_apply, hstate,
        liveIn_stored hr hnamed (mem_byNumber.1 hd)]
    rw [hfilter]
    refine List.map_congr_left ?_
    intro d hd
    have hin := mem_byNumber.1 (List.mem_filter.1 hd).1
    have hleft : d.rebuilt.item.left = afterStop { d.item.stored with
        backup := d.item.backup.stored
        table := d.item.table.rebuilt } := rfl
    rw [Function.comp_apply, Function.comp_apply, hleft,
      completed_entries h hr hnumbered hdistinct hin (hextents d hin)]
  have hof : remainsOf (s.entries set) set.lead.stored = set.rebuilt.left := by
    rw [remainsOf_eq_of_mains (items_mains_entries h hr hdistinct), hitems, hr.lead]
    rfl
  rw [remains_eq_of_leads (items_leads_entries h hdistinct), List.filterMap_cons, hof]
  cases set.rebuilt.left <;> rfl

end Left

end Store

/-! ### When they are recovered -/

/-- What is left of all file sets after a stop. -/
def Catalog.left (c : Catalog) : List Remains := c.sets.filterMap FileSet.left

/-- A catalog once the tables of all cycles have been built again from their own extents. -/
def Catalog.rebuilt (c : Catalog) : Catalog := { c with sets := c.sets.map FileSet.rebuilt }

theorem Catalog.rebuilt_eq {c : Catalog}
    (h : ∀ set ∈ c.sets, ∀ d ∈ set.cycles, d.item.table.Canonical) : c.rebuilt = c := by
  have hsets : c.sets.map FileSet.rebuilt = c.sets :=
    (List.map_congr_left fun set hset => FileSet.rebuilt_eq (h set hset)).trans (List.map_id _)
  rw [rebuilt, hsets]

namespace Store.Carries

variable {config : Configuration} {c : Catalog} {s : Store} (h : s.Carries c) (hc : c.Indexed)
  (hr : ∀ set ∈ c.sets, set.Attributable)

include h hc hr

/-- The records of a file set are told by its name. -/
theorem set_of_mem_entries {set : FileSet} (hset : set ∈ c.sets) {f : Found}
    (hf : f ∈ s.entries set) : f.record.set = set.name := by
  obtain heq | ⟨d, hd, hreading⟩ := (exists_mem_entries (h.whole hc hset)).1 ⟨f.sector, hf⟩
  · rw [heq]
    exact (hr set hset).name
  · rw [MainItem.set_readings hreading, (hr set hset).key d hd]
    exact hc.named set hset d hd

theorem ofSet_ledger {set : FileSet} (hset : set ∈ c.sets) :
    ofSet set.name (c.sets.flatMap s.entries) = s.entries set :=
  filter_flatMap_self (fun _ hother _ hf => set_of_mem_entries h hc hr hother hf)
    hc.ordered.nodup_names hset

variable (hextents : ∀ set ∈ c.sets, ∀ d ∈ set.cycles, ∀ e ∈ d.item.table.extents, e.stored = e)

include hextents

/-- What the records of a file set leave of it. -/
theorem remains_entries {set : FileSet} (hset : set ∈ c.sets) (hnumbered : set.Numbered) :
    remains (s.entries set) = set.rebuilt.left.toList := by
  have hwhole := h.whole hc hset
  have hdistinct : Distinct (s.entries set) := by
    refine ⟨?_, (nodup_tags_entries hwhole (hr set hset)).2 hnumbered⟩
    rw [← ofSet_ledger h hc hr hset]
    exact (h.holds hc).sectors.sublist (List.filter_sublist.map _)
  exact Store.remains_entries hwhole (hr set hset) (hc.named set hset) hnumbered hdistinct
    (hextents set hset)

/-- **When the image that carries a catalog is accepted, and the catalog that is recovered.** -/
theorem recover_iff {catalog : Catalog} :
    (∃ e, (Directory.recover config s.device.copy).1 = .ok e ∧ e.catalog = catalog) ↔
      (∀ set ∈ c.sets, set.Numbered) ∧ restart config c.rebuilt.left = .ok catalog := by
  have hnames : (c.sets.map FileSet.name).Pairwise fun a b => compare a b = .lt :=
    List.pairwise_map.2 hc.ordered
  have hall : ∀ f ∈ c.sets.flatMap s.entries, f.record.set ∈ c.sets.map FileSet.name := by
    intro f hf
    obtain ⟨set, hset, hin⟩ := List.mem_flatMap.1 hf
    rw [set_of_mem_entries h hc hr hset hin]
    exact List.mem_map_of_mem hset
  rw [recover_iff_sets config (Device.healthy_copy _) (h.holds hc) hnames hall, List.flatMap_map,
    List.forall_mem_map]
  have hcoherent : (∀ set ∈ c.sets, Coherent (ofSet set.name (c.sets.flatMap s.entries))) ↔
      ∀ set ∈ c.sets, set.Numbered := by
    refine forall₂_congr fun set hset => ?_
    rw [ofSet_ledger h hc hr hset]
    exact coherent_entries_iff (h.whole hc hset) (hr set hset) (hc.named set hset)
  rw [hcoherent]
  refine and_congr_right fun hnumbered => ?_
  have hleft : (c.sets.flatMap fun set => remains (ofSet set.name (c.sets.flatMap s.entries))) =
      c.rebuilt.left := by
    rw [Catalog.left, Catalog.rebuilt, List.filterMap_map, List.filterMap_eq_flatMap_toList]
    refine List.flatMap_congr ?_
    intro set hset
    rw [ofSet_ledger h hc hr hset, remains_entries h hc hr hextents hset (hnumbered set hset)]
    rfl
  rw [hleft]

end Store.Carries

end FileDirectory
