/-
**What is left of each file set after a stop.**

Recovery succeeds if no main item lacks its backup or its lead item, no allocation record lacks its
main item and the tracks of the live cycles can be claimed.  What it then makes of a file set depends
on the records of that set alone, in whatever sectors they are: the lead item, and the live cycles in
the order of their numbers with their backups and their extents.

Main definitions:

* `FileDirectory.Recovery.Complete` — no record lacks another that it needs;
* `FileDirectory.Recovery.Remains`, `FileDirectory.Recovery.remains` — what is left of a file set,
  and of all the file sets that records describe;
* `FileDirectory.Recovery.restart` — the catalog of what is left;
* `FileDirectory.Recovery.ofSet` — the records of one file set.

Main results:

* `FileDirectory.Recovery.rebuild_iff` — rebuilding starts again with what is left;
* `FileDirectory.Recovery.remains_eq_flatMap`, `FileDirectory.Recovery.complete_iff_forall` — the
  records may be looked at set by set.
-/

import FileDirectory.Proofs.Recovery.Rebuilt

set_option autoImplicit false

namespace FileDirectory

/-- The file set that a record belongs to. -/
def Record.set : Record → SetName
  | .lead item => item.name
  | .main item => item.key.set
  | .backup key _ => key.set
  | .allocation key _ _ => key.set

namespace Recovery

/-! ### Complete records -/

/-- Each main item has its backup and the lead item of its set, and each allocation record its main
item. -/
structure Complete (found : List Found) : Prop where
  backup : ∀ main ∈ mains found, ∃ b ∈ backups found, b.1 = main.1.key
  lead : ∀ main ∈ mains found, ∃ lead ∈ leads found, lead.1.name = main.1.key.set
  owner : ∀ a ∈ allocations found, ∃ main ∈ mains found, main.1.key = a.key

/-- Whether records are complete is told by what they are records of. -/
theorem complete_iff {found : List Found} :
    Complete found ↔
      (∀ key, .main key ∈ found.map (fun f => f.record.tag) →
        .backup key ∈ found.map (fun f => f.record.tag) ∧
          .lead key.set ∈ found.map fun f => f.record.tag) ∧
      ∀ key sequence, .allocation key sequence ∈ found.map (fun f => f.record.tag) →
        .main key ∈ found.map fun f => f.record.tag := by
  simp only [lead_mem_tags, main_mem_tags, backup_mem_tags, allocation_mem_tags]
  constructor
  · rintro ⟨hbackup, hlead, howner⟩
    refine ⟨?_, ?_⟩
    · rintro key ⟨main, hmain, rfl⟩
      exact ⟨hbackup main hmain, hlead main hmain⟩
    · rintro key sequence ⟨a, ha, rfl, -⟩
      exact howner a ha
  · rintro ⟨hmain, howner⟩
    exact ⟨fun main hin => (hmain _ ⟨main, hin, rfl⟩).1, fun main hin => (hmain _ ⟨main, hin, rfl⟩).2,
      fun a ha => howner _ _ ⟨a, ha, rfl, rfl⟩⟩

theorem complete_congr {found found' : List Found}
    (htags : (found.map fun f => f.record.tag).Perm (found'.map fun f => f.record.tag)) :
    Complete found ↔ Complete found' := by
  rw [complete_iff, complete_iff]
  simp only [htags.mem_iff]

/-- A main item with what its backup record and its allocation records say. -/
def completed (found : List Found) (item : MainItem) : MainItem :=
  { item with
    backup := (((backups found).lookup item.key).map Prod.fst).getD item.backup
    table := ((allocationsOf found item.key).flatMap FoundExtents.extents).foldl
      ExtentTable.insert item.table }

/-- Outcomes that are all good are what they are the outcomes of. -/
theorem exists_map_eq_ok {α β ε : Type} {f : α → Except ε β} {l : List α}
    (h : ∀ a ∈ l, ∃ b, f a = .ok b) : ∃ r : List β, l.map f = r.map .ok := by
  induction l with
  | nil => exact ⟨[], rfl⟩
  | cons a l ih =>
      obtain ⟨b, hb⟩ := h a List.mem_cons_self
      obtain ⟨r, hr⟩ := ih fun c hc => h c (List.mem_cons_of_mem _ hc)
      exact ⟨b :: r, by rw [List.map_cons, List.map_cons, hb, hr]⟩

/-- **The main items can be put together exactly if the records are complete.** -/
theorem exists_assembleAll_iff {found : List Found} :
    (∃ items, assembleAll found = .ok items) ↔ Complete found := by
  constructor
  · rintro ⟨items, h⟩
    obtain ⟨hmap, howner⟩ := assembleAll_eq_ok.1 h
    have hall : ∀ main ∈ mains found, ∃ backup, (backups found).lookup main.1.key = some backup ∧
        ∃ lead ∈ leads found, lead.1.name = main.1.key.set := by
      intro main hmain
      have hin : assemble found main ∈ items.map .ok := hmap ▸ List.mem_map_of_mem hmain
      obtain ⟨placed, -, hplaced⟩ := List.mem_map.1 hin
      obtain ⟨backup, hlookup, hlead, -⟩ := assemble_eq_ok.1 hplaced.symm
      exact ⟨backup, hlookup, hlead⟩
    refine ⟨?_, fun main hmain => (hall main hmain).choose_spec.2, howner⟩
    intro main hmain
    obtain ⟨backup, hlookup, -⟩ := hall main hmain
    obtain ⟨l₁, l₂, heq, -⟩ := List.lookup_eq_some_iff.1 hlookup
    refine ⟨(main.1.key, backup), ?_, rfl⟩
    rw [heq]
    exact List.mem_append_right _ List.mem_cons_self
  · rintro ⟨hbackup, hlead, howner⟩
    obtain ⟨items, hitems⟩ := exists_map_eq_ok (f := assemble found) (l := mains found) (by
      intro main hmain
      obtain ⟨b, hb, hkey⟩ := hbackup main hmain
      have hsome : (backups found).lookup main.1.key ≠ none := by
        intro hnone
        have hne := List.lookup_eq_none_iff.1 hnone b hb
        simp [hkey] at hne
      obtain ⟨backup, hlookup⟩ := Option.ne_none_iff_exists'.1 hsome
      exact ⟨_, assemble_eq_ok.2 ⟨backup, hlookup, hlead main hmain, rfl⟩⟩)
    exact ⟨items, assembleAll_eq_ok.2 ⟨hitems, howner⟩⟩

/-- The main items that were put together, in the order of their names and numbers. -/
theorem items_of_assembleAll {found : List Found} {items : List Placed}
    (h : assembleAll found = .ok items) :
    items.map Placed.item = (mains found).map fun main => completed found main.1 := by
  obtain ⟨hmap, -⟩ := assembleAll_eq_ok.1 h
  have hone : ∀ main placed, assemble found main = .ok placed →
      placed.item = completed found main.1 := by
    intro main placed hplaced
    obtain ⟨backup, hlookup, -, rfl⟩ := assemble_eq_ok.1 hplaced
    unfold completed assembled
    rw [hlookup]
    rfl
  have hgoes : ∀ (ms : List (MainItem × Nat)) (ps : List Placed),
      ms.map (assemble found) = ps.map .ok →
        ps.map Placed.item = ms.map fun main => completed found main.1 := by
    intro ms ps heq
    induction ms generalizing ps with
    | nil =>
        cases ps with
        | nil => rfl
        | cons p ps => cases heq
    | cons main ms ih =>
        cases ps with
        | nil => cases heq
        | cons p ps =>
            obtain ⟨hhead, htail⟩ := List.cons.inj heq
            rw [List.map_cons, List.map_cons, hone main p hhead, ih ps htail]
  exact hgoes _ _ hmap

/-! ### What is left -/

/-- What is left of a file set after a stop: its lead item, and its live cycles by number. -/
structure Remains where
  lead : LeadItem
  items : List MainItem
  deriving DecidableEq, Repr

/-- The pack tracks of what is left of a file set. -/
def Remains.regions (r : Remains) : List Region := r.items.flatMap fun m => m.table.packRegions

theorem tracksIn_regions (rs : List Remains) : tracksIn (rs.flatMap Remains.regions) =
    (rs.flatMap Remains.items).flatMap fun m => m.table.packTracks := by
  unfold tracksIn Remains.regions ExtentTable.packTracks
  simp only [List.flatMap_assoc]
  rfl

/-- A main item is that of a live cycle of a file set. -/
def liveIn (name : SetName) (m : MainItem) : Bool := m.key.set = name && m.state = .live

/-- What is left of the file set of a lead item, unless it has no live cycle. -/
def remainsOf (found : List Found) (lead : LeadItem) : Option Remains :=
  let items := ((mains found).filter fun main => liveIn lead.name main.1).map fun main =>
    afterStop (completed found main.1)
  if items = [] then none else some ⟨{ lead with plusOneExists := false }, items⟩

/-- What is left of a file set is told by the main items, whatever sectors they are in. -/
theorem remainsOf_eq_of_mains {found : List Found} {items : List MainItem}
    (h : (mains found).map Prod.fst = items) (lead : LeadItem) :
    remainsOf found lead =
      let left := (items.filter (liveIn lead.name)).map fun item => afterStop (completed found item)
      if left = [] then none else some ⟨{ lead with plusOneExists := false }, left⟩ := by
  subst h
  unfold remainsOf
  rw [List.filter_map, List.map_map]
  rfl

/-- What is left of all file sets, in the order of their names. -/
def remains (found : List Found) : List Remains :=
  (leads found).filterMap fun lead => remainsOf found lead.1

theorem remains_eq_of_leads {found : List Found} {items : List LeadItem}
    (h : (leads found).map Prod.fst = items) :
    remains found = items.filterMap (remainsOf found) := by
  subst h
  rw [List.filterMap_map]
  rfl

/-- **What is left of file sets** are the live cycles whose main items were found with a lead item of
their set. -/
theorem exists_mem_remains_iff {found : List Found} {lead' : LeadItem} {m : MainItem} :
    (∃ r ∈ remains found, r.lead = lead' ∧ m ∈ r.items) ↔
      ∃ lead ∈ leads found, ∃ main ∈ mains found, liveIn lead.1.name main.1 ∧
        lead' = { lead.1 with plusOneExists := false } ∧
        m = afterStop (completed found main.1) := by
  constructor
  · rintro ⟨r, hr, rfl, hm⟩
    obtain ⟨lead, hlead, hleft⟩ := List.mem_filterMap.1 hr
    rw [remainsOf] at hleft
    split at hleft
    · cases hleft
    · cases hleft
      obtain ⟨main, hmain, rfl⟩ := List.mem_map.1 hm
      obtain ⟨hin, hlive⟩ := List.mem_filter.1 hmain
      exact ⟨lead, hlead, main, hin, hlive, rfl, rfl⟩
  · rintro ⟨lead, hlead, main, hmain, hlive, rfl, rfl⟩
    have hin : afterStop (completed found main.1) ∈
        ((mains found).filter fun main => liveIn lead.1.name main.1).map fun main =>
          afterStop (completed found main.1) :=
      List.mem_map.2 ⟨main, List.mem_filter.2 ⟨hmain, hlive⟩, rfl⟩
    refine ⟨_, List.mem_filterMap.2 ⟨lead, hlead, if_neg (List.ne_nil_of_mem hin)⟩, rfl, hin⟩

/-- What is left are live cycles whose main items were found. -/
theorem items_of_mem_remains {found : List Found} {r : Remains} (h : r ∈ remains found) :
    ∀ m ∈ r.items, ∃ main ∈ mains found, main.1.state = .live ∧
      m = afterStop (completed found main.1) := by
  intro m hm
  obtain ⟨lead, -, main, hmain, hlive, -, rfl⟩ := exists_mem_remains_iff.1 ⟨r, h, rfl, hm⟩
  rw [liveIn, Bool.and_eq_true] at hlive
  exact ⟨main, hmain, of_decide_eq_true hlive.2, rfl⟩

/-- The live ones among the main items that were found. -/
def liveMains (found : List Found) : List (MainItem × Nat) :=
  (mains found).filter fun main => main.1.state = .live

/-- **Every live cycle is left**, if no main item lacks its lead item. -/
theorem perm_items_remains {found : List Found} (h : Distinct found) (hcomplete : Complete found) :
    ((remains found).flatMap Remains.items).Perm
      ((liveMains found).map fun main => afterStop (completed found main.1)) := by
  have hleads : (remains found).flatMap Remains.items =
      (((leads found).map fun lead => lead.1.name).flatMap fun name =>
        (liveMains found).filter fun main => main.1.key.set = name).map fun main =>
          afterStop (completed found main.1) := by
    rw [remains, List.map_flatMap, List.flatMap_map]
    generalize leads found = ls
    induction ls with
    | nil => rfl
    | cons lead ls ih =>
        have hitems : (remainsOf found lead.1).toList.flatMap Remains.items =
            ((liveMains found).filter fun main => main.1.key.set = lead.1.name).map fun main =>
              afterStop (completed found main.1) := by
          have hfilter : ((liveMains found).filter fun main => main.1.key.set = lead.1.name) =
              (mains found).filter fun main => liveIn lead.1.name main.1 := List.filter_filter
          rw [hfilter, remainsOf]
          split
          · rename_i hnone
            rw [hnone]
            rfl
          · exact List.flatMap_singleton _ _
        rw [List.filterMap_cons, List.flatMap_cons, ← ih, ← hitems]
        cases remainsOf found lead.1 <;> simp
  have hnames : ((leads found).map fun lead => lead.1.name).Nodup :=
    nodup_of_pairwise_lt (fun lead : LeadItem × Nat => lead.1.name) h.pairwise_leads
  rw [hleads]
  refine List.Perm.map _ ((perm_flatMap_filter (fun main : MainItem × Nat => main.1.key.set)
    (liveMains found) hnames).trans (List.Perm.of_eq (List.filter_eq_self.2 ?_)))
  intro main hmain
  obtain ⟨lead, hlead, hname⟩ := hcomplete.lead main (List.mem_filter.1 hmain).1
  exact decide_eq_true (List.mem_map.2 ⟨lead, hlead, hname⟩)

/-- Cycles that nobody has assigned, with the identifiers after a given one. -/
def cyclesFrom (last : Nat) : List MainItem → List FileCycle
  | [] => []
  | item :: items => { file := ⟨last + 1⟩, item := item } :: cyclesFrom (last + 1) items

/-- File sets of which the given is left, their cycles with the identifiers after a given one. -/
def setsFrom (last : Nat) : List Remains → List FileSet
  | [] => []
  | r :: rs =>
    { lead := r.lead, cycles := cyclesFrom last r.items } :: setsFrom (last + r.items.length) rs

/-- The catalog of what is left, if the tracks can be claimed. -/
def restart (config : Configuration) (rs : List Remains) : Except Region Catalog :=
  (claimAll (Catalog.empty config).space (rs.flatMap Remains.regions)).map fun space =>
    { config := config, sets := setsFrom 0 rs, space := space
      lastFile := (rs.flatMap Remains.items).length }

theorem items_cyclesFrom (last : Nat) (items : List MainItem) :
    (cyclesFrom last items).map FileCycle.item = items := by
  induction items generalizing last with
  | nil => rfl
  | cons item items ih => exact congrArg (item :: ·) (ih (last + 1))

theorem mem_cyclesFrom {last : Nat} {items : List MainItem} {c : FileCycle}
    (h : c ∈ cyclesFrom last items) : c.creator = none ∧ c.holders = [] := by
  induction items generalizing last with
  | nil => cases h
  | cons item items ih =>
      rcases List.mem_cons.1 h with rfl | h
      · exact ⟨rfl, rfl⟩
      · exact ih h

theorem mem_setsFrom {last : Nat} {rs : List Remains} {set : FileSet} (h : set ∈ setsFrom last rs) :
    ∃ first items, set.cycles = cyclesFrom first items := by
  induction rs generalizing last with
  | nil => cases h
  | cons r rs ih =>
      rcases List.mem_cons.1 h with rfl | h
      · exact ⟨last, r.items, rfl⟩
      · exact ih h

theorem remains_setsFrom (last : Nat) (rs : List Remains) :
    (setsFrom last rs).map (fun set => (⟨set.lead, set.cycles.map FileCycle.item⟩ : Remains)) =
      rs := by
  induction rs generalizing last with
  | nil => rfl
  | cons r rs ih =>
      rw [setsFrom, List.map_cons, ih, items_cyclesFrom]

/-- A catalog that starts again has the file sets that were left. -/
theorem sets_of_restart {config : Configuration} {rs : List Remains} {c : Catalog}
    (h : restart config rs = .ok c) : c.sets = setsFrom 0 rs := by
  unfold restart at h
  cases hclaim : claimAll (Catalog.empty config).space (rs.flatMap Remains.regions) with
  | error r =>
      rw [hclaim] at h
      cases h
  | ok space =>
      rw [hclaim] at h
      cases h
      rfl

theorem mem_remains_of_restart {config : Configuration} {rs : List Remains} {c : Catalog}
    (h : restart config rs = .ok c) {set : FileSet} (hset : set ∈ c.sets) :
    (⟨set.lead, set.cycles.map FileCycle.item⟩ : Remains) ∈ rs := by
  rw [← remains_setsFrom 0 rs, ← sets_of_restart h]
  exact List.mem_map.2 ⟨set, hset, rfl⟩

/-- The cycles of a catalog that starts again are those that were left. -/
theorem exists_cycle_iff {config : Configuration} {rs : List Remains} {c : Catalog}
    (h : restart config rs = .ok c) {lead : LeadItem} {m : MainItem} :
    (∃ set ∈ c.sets, set.lead = lead ∧ ∃ d ∈ set.cycles, d.item = m) ↔
      ∃ r ∈ rs, r.lead = lead ∧ m ∈ r.items := by
  rw [sets_of_restart h]
  conv_rhs => rw [← remains_setsFrom 0 rs]
  simp [List.mem_map]

/-- The cycles of a catalog that starts again are those whose main items were found live, if no main
item lacks its lead item. -/
theorem exists_key_iff {config : Configuration} {found : List Found} {c : Catalog}
    (hcomplete : Complete found) (h : restart config (remains found) = .ok c) {key : CycleKey} :
    (∃ set ∈ c.sets, ∃ d ∈ set.cycles, d.item.key = key) ↔
      ∃ main ∈ mains found, main.1.key = key ∧ main.1.state = .live := by
  constructor
  · rintro ⟨set, hset, d, hd, rfl⟩
    obtain ⟨r, hr, -, hitem⟩ := (exists_cycle_iff h).1 ⟨set, hset, rfl, d, hd, rfl⟩
    obtain ⟨main, hmain, hlive, heq⟩ := items_of_mem_remains hr d.item hitem
    rw [heq]
    exact ⟨main, hmain, rfl, hlive⟩
  · rintro ⟨main, hmain, rfl, hlive⟩
    obtain ⟨lead, hlead, hname⟩ := hcomplete.lead main hmain
    have hin : liveIn lead.1.name main.1 := by simp [liveIn, hname, hlive]
    obtain ⟨set, hset, -, d, hd, hitem⟩ := (exists_cycle_iff h).2
      (exists_mem_remains_iff.2 ⟨lead, hlead, main, hmain, hin, rfl, rfl⟩)
    refine ⟨set, hset, d, hd, ?_⟩
    rw [hitem]
    rfl

/-- What was left can be told from the catalog that starts with it. -/
theorem restart_injective {config : Configuration} {rs rs' : List Remains} {c : Catalog}
    (h : restart config rs = .ok c) (h' : restart config rs' = .ok c) : rs = rs' := by
  rw [← remains_setsFrom 0 rs, ← remains_setsFrom 0 rs', ← sets_of_restart h, ← sets_of_restart h']

/-! ### Rebuilding starts again with what is left -/

section Rebuilding

variable {found : List Found} {items : List Placed}

theorem cyclesFrom_map (last : Nat) (cycles : List Placed) :
    (numbered last cycles).map recoveredCycle =
      cyclesFrom last (cycles.map fun p => afterStop p.item) := by
  induction cycles generalizing last with
  | nil => rfl
  | cons p cycles ih => rw [numbered, List.map_cons, List.map_cons, cyclesFrom, ih]; rfl

/-- The live cycles of the file set of a lead item. -/
theorem items_survivors (h : assembleAll found = .ok items) (lead : LeadItem × Nat) :
    (survivors items lead).map (fun p => p.item) =
      ((mains found).filter fun main => liveIn lead.1.name main.1).map fun main =>
        completed found main.1 := by
  have hitems := items_of_assembleAll h
  have hsurvivors : survivors items lead = items.filter fun p => liveIn lead.1.name p.item := by
    unfold survivors live own
    rw [List.filter_filter]
    refine List.filter_congr ?_
    intro p _
    exact Bool.and_comm _ _
  have hmap : (items.filter fun p => liveIn lead.1.name p.item).map (fun p => p.item) =
      (items.map fun p => p.item).filter (liveIn lead.1.name) := by
    rw [List.filter_map]
    rfl
  rw [hsurvivors, hmap, hitems, List.filter_map]
  rfl

/-- A set all of whose cycles are live has no cycle that is being cataloged. -/
theorem refresh_of_live {set : FileSet} (h : ∀ c ∈ set.cycles, c.item.state = .live) :
    set.refresh = { set with lead := { set.lead with plusOneExists := false } } := by
  have hnone : set.cycles.any (fun c =>
      c.item.state = .cataloging && c.item.key.cycle = set.lead.highest) = false := by
    rw [List.any_eq_false]
    intro c hc
    simp [h c hc]
  unfold FileSet.refresh
  rw [hnone]

theorem remainsOf_eq (h : assembleAll found = .ok items) (lead : LeadItem × Nat) :
    remainsOf found lead.1 = if survivors items lead = [] then none else
      some ⟨{ lead.1 with plusOneExists := false },
        (survivors items lead).map fun p => afterStop p.item⟩ := by
  have hitems : ((mains found).filter fun main => liveIn lead.1.name main.1).map (fun main =>
      afterStop (completed found main.1)) =
      (survivors items lead).map fun p => afterStop p.item := by
    have hmap := congrArg (List.map afterStop) (items_survivors h lead)
    rw [List.map_map, List.map_map] at hmap
    exact hmap.symm
  unfold remainsOf
  rw [hitems]
  simp

theorem sets_recoveredSets (h : assembleAll found = .ok items) (last : Nat)
    (leads : List (LeadItem × Nat)) :
    (recoveredSets items last leads).map Prod.fst =
      setsFrom last (leads.filterMap fun lead => remainsOf found lead.1) := by
  induction leads generalizing last with
  | nil => rfl
  | cons lead leads ih =>
      rw [recoveredSets, List.filterMap_cons, remainsOf_eq h]
      by_cases hnone : survivors items lead = []
      · rw [if_pos hnone, if_pos hnone]
        exact ih last
      · rw [if_neg hnone, if_neg hnone]
        dsimp only
        rw [List.map_cons, setsFrom, List.length_map, ih, recoveredSet, cyclesFrom_map]
        refine congrArg (· :: _) (refresh_of_live ?_)
        intro c hc
        have hin : c.item ∈ (cyclesFrom last ((survivors items lead).map fun p =>
            afterStop p.item)).map FileCycle.item := List.mem_map_of_mem hc
        rw [items_cyclesFrom] at hin
        obtain ⟨p, hp, heq⟩ := List.mem_map.1 hin
        rw [← heq]
        exact of_decide_eq_true (List.mem_filter.1 hp).2

theorem survivors_remains (h : assembleAll found = .ok items) (leads : List (LeadItem × Nat)) :
    (leads.flatMap (survivors items)).map (fun p => afterStop p.item) =
      (leads.filterMap fun lead => remainsOf found lead.1).flatMap Remains.items := by
  induction leads with
  | nil => rfl
  | cons lead leads ih =>
      rw [List.flatMap_cons, List.map_append, ih, List.filterMap_cons, remainsOf_eq h]
      by_cases hnone : survivors items lead = []
      · rw [if_pos hnone, hnone]
        rfl
      · rw [if_neg hnone]
        rfl

theorem regions_survivors (h : assembleAll found = .ok items) :
    regions ((leads found).flatMap (survivors items)) = (remains found).flatMap Remains.regions := by
  have htracks := congrArg (List.flatMap fun m : MainItem => m.table.packRegions)
    (survivors_remains h (leads found))
  rw [List.flatMap_map] at htracks
  exact htracks.trans List.flatMap_assoc

theorem length_survivors (h : assembleAll found = .ok items) :
    ((leads found).flatMap (survivors items)).length =
      ((remains found).flatMap Remains.items).length := by
  have hlength := congrArg List.length (survivors_remains h (leads found))
  rwa [List.length_map] at hlength

/-- The catalog that is rebuilt has the sets that are left, with cycles that are numbered anew. -/
theorem catalog_extend (h : assembleAll found = .ok items) (config : Configuration)
    (space : FreeSpace) (cleared : List Nat) :
    (extend items { catalog := Catalog.empty config, cleared := cleared } space
      (leads found)).catalog =
      { config := config, sets := setsFrom 0 (remains found), space := space
        lastFile := ((remains found).flatMap Remains.items).length } := by
  rw [remains, ← sets_recoveredSets h, ← remains, ← length_survivors h]
  unfold extend Catalog.empty
  rw [List.nil_append, Nat.zero_add]

/-- **Rebuilding starts again with what is left**, if the records are complete. -/
theorem rebuild_iff {config : Configuration} {catalog : Catalog} :
    (∃ r, rebuild config found = .ok r ∧ r.catalog = catalog) ↔
      Complete found ∧ restart config (remains found) = .ok catalog := by
  rw [← exists_assembleAll_iff]
  constructor
  · rintro ⟨r, hr, rfl⟩
    obtain ⟨items, space, hitems, hclaim, rfl⟩ := rebuild_eq_ok.1 hr
    rw [regions_survivors hitems] at hclaim
    refine ⟨⟨items, hitems⟩, ?_⟩
    rw [restart, hclaim, catalog_extend hitems]
    rfl
  · rintro ⟨⟨items, hitems⟩, hrestart⟩
    rw [restart, ← regions_survivors hitems] at hrestart
    obtain ⟨space, hclaim, rfl⟩ := map_eq_ok.1 hrestart
    exact ⟨_, rebuild_eq_ok.2 ⟨items, space, hitems, hclaim, rfl⟩, catalog_extend hitems _ _ _⟩

end Rebuilding

/-! ### Set by set -/

/-- The records of one file set. -/
def ofSet (name : SetName) (found : List Found) : List Found :=
  found.filter fun f => f.record.set = name

section Sets

variable {found found' : List Found}

theorem Distinct.perm (h : Distinct found) (hperm : found.Perm found') : Distinct found' :=
  ⟨(hperm.map _).nodup_iff.1 h.sectors, (hperm.map _).nodup_iff.1 h.tags⟩

/-- A main item is completed alike by the same records, in whatever sectors they are found. -/
theorem completed_congr (h : Distinct found) (h' : Distinct found')
    (hrecords : ∀ r, (∃ sector, ⟨sector, r⟩ ∈ found) ↔ ∃ sector, ⟨sector, r⟩ ∈ found') :
    completed found = completed found' := by
  have hbackups : ∀ key, ((backups found).lookup key).map Prod.fst =
      ((backups found').lookup key).map Prod.fst := by
    intro key
    refine Option.ext ?_
    intro info
    have hlookup : ∀ {found : List Found}, Distinct found →
        (((backups found).lookup key).map Prod.fst = some info ↔
          ∃ sector, ⟨sector, .backup key info⟩ ∈ found) := by
      intro found h
      rw [Option.map_eq_some_iff]
      constructor
      · rintro ⟨⟨_, sector⟩, hlookup, rfl⟩
        exact ⟨sector, mem_backups.1 ((lookup_eq_some_iff h.nodup_backups).1 hlookup)⟩
      · rintro ⟨sector, hin⟩
        exact ⟨_, h.lookup_backups hin, rfl⟩
    rw [hlookup h, hlookup h', hrecords]
  have hextents : ∀ key, (allocationsOf found key).flatMap FoundExtents.extents =
      (allocationsOf found' key).flatMap FoundExtents.extents := by
    intro key
    -- the extents are told by the numbers of their records
    rw [h.extents_allocationsOf (l := (allocationsOf found' key).map fun a =>
      (a.sequence, a.extents)), List.flatMap_map]
    · exact List.pairwise_map.2 (h'.pairwise_allocationsOf key)
    · intro n es
      rw [hrecords, List.mem_map]
      constructor
      · rintro ⟨a, ha, heq⟩
        obtain ⟨hin, rfl⟩ := mem_allocationsOf.1 ha
        cases heq
        exact ⟨a.sector, hin⟩
      · rintro ⟨sector, hin⟩
        exact ⟨⟨key, n, es, sector⟩, mem_allocationsOf.2 ⟨hin, rfl⟩, rfl⟩
  funext item
  unfold completed
  rw [hbackups, hextents]

/-- **What is left depends on the records alone**, not on the sectors that they are found in. -/
theorem remains_congr (h : Distinct found) (h' : Distinct found')
    (hrecords : ∀ r, (∃ sector, ⟨sector, r⟩ ∈ found) ↔ ∃ sector, ⟨sector, r⟩ ∈ found') :
    remains found = remains found' := by
  have hleads : (leads found).map Prod.fst = (leads found').map Prod.fst := by
    refine h.items_leads (List.pairwise_map.2 h'.pairwise_leads) ?_
    intro item
    rw [hrecords, List.mem_map]
    constructor
    · rintro ⟨⟨item, sector⟩, hin, rfl⟩
      exact ⟨sector, mem_leads.1 hin⟩
    · rintro ⟨sector, hin⟩
      exact ⟨_, mem_leads.2 hin, rfl⟩
  have hmains : (mains found).map Prod.fst = (mains found').map Prod.fst := by
    refine h.items_mains (List.pairwise_map.2 h'.pairwise_mains) ?_
    intro item
    rw [hrecords, List.mem_map]
    constructor
    · rintro ⟨⟨item, sector⟩, hin, rfl⟩
      exact ⟨sector, mem_mains.1 hin⟩
    · rintro ⟨sector, hin⟩
      exact ⟨_, mem_mains.2 hin, rfl⟩
  rw [remains_eq_of_leads hleads, remains_eq_of_leads rfl]
  refine List.filterMap_congr ?_
  intro lead _
  rw [remainsOf_eq_of_mains hmains, remainsOf_eq_of_mains rfl, completed_congr h h' hrecords]

/-- What is left does not depend on the order in which records are found. -/
theorem remains_perm (h : Distinct found) (hperm : found.Perm found') :
    remains found = remains found' :=
  remains_congr h (h.perm hperm) fun _ => exists_congr fun _ => hperm.mem_iff

/-- The records of a kind, of one file set. -/
theorem filterMap_ofSet {α : Type} {pick : Found → Option α} (set : α → SetName)
    (h : ∀ f a, pick f = some a → set a = f.record.set) (name : SetName) (found : List Found) :
    (ofSet name found).filterMap pick = (found.filterMap pick).filter fun a => set a = name := by
  unfold ofSet
  induction found with
  | nil => rfl
  | cons f found ih =>
      by_cases hname : f.record.set = name
      · rw [List.filter_cons_of_pos (by simpa using hname), List.filterMap_cons,
          List.filterMap_cons, ih]
        cases hpick : pick f with
        | none => rfl
        | some a =>
            dsimp only
            rw [List.filter_cons_of_pos (by simpa [h f a hpick] using hname)]
      · rw [List.filter_cons_of_neg (by simpa using hname), List.filterMap_cons, ih]
        cases hpick : pick f with
        | none => rfl
        | some a =>
            dsimp only
            rw [List.filter_cons_of_neg (by simpa [h f a hpick] using hname)]

/-- The records of one file set, sorted out by their kinds. -/
theorem sorted_ofSet (h : Distinct found) (name : SetName) :
    leads (ofSet name found) = (leads found).filter (fun lead => lead.1.name = name) ∧
      mains (ofSet name found) = (mains found).filter (fun main => main.1.key.set = name) ∧
      backups (ofSet name found) = (backups found).filter (fun b => b.1.set = name) ∧
      allocations (ofSet name found) = (allocations found).filter (fun a => a.key.set = name) := by
  refine ⟨?_, ?_, ?_, ?_⟩
  · refine mergeSort_eq_of_perm (fun lead : LeadItem × Nat => lead.1.name) ?_
      (h.pairwise_leads.sublist List.filter_sublist)
    rw [filterMap_ofSet fun lead : LeadItem × Nat => lead.1.name]
    · exact (List.mergeSort_perm _ _).symm.filter _
    · rintro ⟨sector, record⟩ a ha
      cases record <;> cases ha
      rfl
  · refine mergeSort_eq_of_perm (fun main : MainItem × Nat => main.1.key) ?_
      (h.pairwise_mains.sublist List.filter_sublist)
    rw [filterMap_ofSet fun main : MainItem × Nat => main.1.key.set]
    · exact (List.mergeSort_perm _ _).symm.filter _
    · rintro ⟨sector, record⟩ a ha
      cases record <;> cases ha
      rfl
  · refine filterMap_ofSet (fun b : CycleKey × BackupInfo × Nat => b.1.set) ?_ name found
    rintro ⟨sector, record⟩ a ha
    cases record <;> cases ha
    rfl
  · refine filterMap_ofSet (fun a : FoundExtents => a.key.set) ?_ name found
    rintro ⟨sector, record⟩ a ha
    cases record <;> cases ha
    rfl

section OfSet

variable (h : Distinct found) {name : SetName}

include h

theorem mem_leads_ofSet {lead : LeadItem × Nat} :
    lead ∈ leads (ofSet name found) ↔ lead ∈ leads found ∧ lead.1.name = name := by
  rw [(sorted_ofSet h name).1, List.mem_filter, decide_eq_true_iff]

theorem mem_mains_ofSet {main : MainItem × Nat} :
    main ∈ mains (ofSet name found) ↔ main ∈ mains found ∧ main.1.key.set = name := by
  rw [(sorted_ofSet h name).2.1, List.mem_filter, decide_eq_true_iff]

theorem mem_backups_ofSet {b : CycleKey × BackupInfo × Nat} :
    b ∈ backups (ofSet name found) ↔ b ∈ backups found ∧ b.1.set = name := by
  rw [(sorted_ofSet h name).2.2.1, List.mem_filter, decide_eq_true_iff]

theorem mem_allocations_ofSet {a : FoundExtents} :
    a ∈ allocations (ofSet name found) ↔ a ∈ allocations found ∧ a.key.set = name := by
  rw [(sorted_ofSet h name).2.2.2, List.mem_filter, decide_eq_true_iff]

end OfSet

/-- A main item is completed by records of its file set. -/
theorem completed_ofSet (h : Distinct found) {name : SetName} {item : MainItem}
    (hname : item.key.set = name) : completed (ofSet name found) item = completed found item := by
  obtain ⟨-, -, hbackups, hallocations⟩ := sorted_ofSet h name
  have hlookup : (backups (ofSet name found)).lookup item.key = (backups found).lookup item.key := by
    rw [hbackups]
    exact lookup_filter (backups found) (p := fun key => key.set = name) (decide_eq_true hname)
  have hparts : allocationsOf (ofSet name found) item.key = allocationsOf found item.key := by
    unfold allocationsOf
    rw [hallocations, List.filter_filter]
    congr 1
    refine List.filter_congr ?_
    intro a _
    by_cases hkey : a.key = item.key
    · simp [hkey, hname]
    · simp [hkey]
  unfold completed
  rw [hlookup, hparts]

theorem remainsOf_ofSet (h : Distinct found) (lead : LeadItem) :
    remainsOf (ofSet lead.name found) lead = remainsOf found lead := by
  obtain ⟨-, hmains, -, -⟩ := sorted_ofSet h lead.name
  have hitems : ((mains (ofSet lead.name found)).filter fun main => liveIn lead.name main.1).map
      (fun main => afterStop (completed (ofSet lead.name found) main.1)) =
      ((mains found).filter fun main => liveIn lead.name main.1).map fun main =>
        afterStop (completed found main.1) := by
    rw [hmains, List.filter_filter]
    have hfilter : (mains found).filter (fun main => liveIn lead.name main.1 &&
        main.1.key.set = lead.name) = (mains found).filter fun main => liveIn lead.name main.1 := by
      refine List.filter_congr ?_
      intro main _
      unfold liveIn
      rw [Bool.and_right_comm, Bool.and_self]
    rw [hfilter]
    refine List.map_congr_left ?_
    intro main hmain
    have hlive := (List.mem_filter.1 hmain).2
    unfold liveIn at hlive
    rw [Bool.and_eq_true, decide_eq_true_iff] at hlive
    rw [completed_ofSet h hlive.1]
  unfold remainsOf
  rw [hitems]

/-- **What is left may be looked at set by set.** -/
theorem remains_eq_flatMap (h : Distinct found) {names : List SetName}
    (hnames : names.Pairwise fun a b => compare a b = .lt)
    (hall : ∀ f ∈ found, f.record.set ∈ names) :
    remains found = names.flatMap fun name => remains (ofSet name found) := by
  have hleads : leads found = names.flatMap fun name => leads (ofSet name found) := by
    have hsplit := eq_flatMap_filter (fun lead : LeadItem × Nat => lead.1.name)
      (fun lead : LeadItem × Nat => lead.1.name) h.pairwise_leads hnames ?_ fun _ _ => id
    · refine hsplit.trans (List.flatMap_congr ?_)
      intro name _
      exact (sorted_ofSet h name).1.symm
    · rintro ⟨lead, sector⟩ hlead
      exact hall _ (mem_leads.1 hlead)
  unfold remains
  rw [hleads, List.filterMap_flatMap]
  refine List.flatMap_congr ?_
  intro name _
  refine List.filterMap_congr ?_
  intro lead hlead
  have hname : lead.1.name = name := ((mem_leads_ofSet h).1 hlead).2
  rw [← hname, remainsOf_ofSet h]

/-- **Whether records are complete may be looked at set by set.** -/
theorem complete_iff_forall (h : Distinct found) {names : List SetName}
    (hall : ∀ f ∈ found, f.record.set ∈ names) :
    Complete found ↔ ∀ name ∈ names, Complete (ofSet name found) := by
  constructor
  · intro hcomplete name _
    refine ⟨fun main hmain => ?_, fun main hmain => ?_, fun a ha => ?_⟩
    · obtain ⟨hin, hname⟩ := (mem_mains_ofSet h).1 hmain
      obtain ⟨b, hb, hkey⟩ := hcomplete.backup main hin
      exact ⟨b, (mem_backups_ofSet h).2 ⟨hb, hkey ▸ hname⟩, hkey⟩
    · obtain ⟨hin, hname⟩ := (mem_mains_ofSet h).1 hmain
      obtain ⟨lead, hlead, hset⟩ := hcomplete.lead main hin
      exact ⟨lead, (mem_leads_ofSet h).2 ⟨hlead, hset.trans hname⟩, hset⟩
    · obtain ⟨hin, hname⟩ := (mem_allocations_ofSet h).1 ha
      obtain ⟨main, hmain, hkey⟩ := hcomplete.owner a hin
      exact ⟨main, (mem_mains_ofSet h).2 ⟨hmain, hkey ▸ hname⟩, hkey⟩
  · intro hsets
    refine ⟨fun main hmain => ?_, fun main hmain => ?_, fun a ha => ?_⟩
    · obtain ⟨b, hb, hkey⟩ := (hsets _ (hall _ (mem_mains.1 hmain))).backup main
        ((mem_mains_ofSet h).2 ⟨hmain, rfl⟩)
      exact ⟨b, ((mem_backups_ofSet h).1 hb).1, hkey⟩
    · obtain ⟨lead, hlead, hset⟩ := (hsets _ (hall _ (mem_mains.1 hmain))).lead main
        ((mem_mains_ofSet h).2 ⟨hmain, rfl⟩)
      exact ⟨lead, ((mem_leads_ofSet h).1 hlead).1, hset⟩
    · obtain ⟨main, hmain, hkey⟩ := (hsets _ (hall _ (mem_allocations.1 ha))).owner a
        ((mem_allocations_ofSet h).2 ⟨ha, rfl⟩)
      exact ⟨main, ((mem_mains_ofSet h).1 hmain).1, hkey⟩

end Sets

end Recovery

end FileDirectory
