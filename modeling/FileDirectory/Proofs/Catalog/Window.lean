/-
**The window of a file set.**

The cycles of a file set lie within its range below the highest one, counted around the circle of
numbers.  A hole that is filled leaves the window where it is.  A new highest cycle moves it up, and
all cycles that stay become older by the same amount; the range that the window keeps to is never
more than the circle, so an old cycle does not come out on top of a new one.  Hence the cycles that
stay in a file set stand in the same order of age.

Main definitions:

* `FileDirectory.FileSet.OnCircle`, `FileDirectory.FileSet.Spaced` — the numbers of a file set are on
  the circle, and in its window;
* `FileDirectory.FileSet.InStep` — the lead item tells whether the highest cycle is being cataloged;
* `FileDirectory.FileSet.Windowed` — what the window, the counts and the lead item say of each other;
* `FileDirectory.FileSet.Kept` — a file set that lost cycles at most;
* `FileDirectory.Catalog.Windows` — the file sets of a catalog keep to their windows;
* `FileDirectory.Catalog.Aged` — the cycles that stay in a file set became older together;
* `FileDirectory.FileSet.newestFirst` — the identifiers of a file set in the order of age.

Main results:

* `FileDirectory.FileSet.OnCircle.windowed` — the counts follow from the window;
* `FileDirectory.FileSet.OnCircle.age_of_chosen` — a cycle that is added makes all others older by
  the same amount;
* `FileDirectory.Catalog.Step.windows`, `FileDirectory.Catalog.Step.aged` — what every step does to
  the window;
* `FileDirectory.Catalog.Aged.filter_newestFirst` — cycles that become older together stand in the
  same order.
-/

import FileDirectory.Proofs.Catalog.Indexed
import FileDirectory.Proofs.Catalog.Numbering

set_option autoImplicit false

namespace FileDirectory

namespace FileSet

/-! ### The numbers of a file set -/

/-- The identifiers of the cycles of a set, each with the number of the cycle. -/
def numbering (set : FileSet) : List (FileId × Nat) :=
  set.cycles.map fun d => (d.file, d.item.key.cycle)

theorem mem_numbering {set : FileSet} {d : FileCycle} (hd : d ∈ set.cycles) :
    (d.file, d.item.key.cycle) ∈ set.numbering := List.mem_map_of_mem hd

/-- The cycles of a file set have numbers on the circle, no number twice. -/
structure OnCircle (set : FileSet) : Prop where
  highest : 1 ≤ set.lead.highest ∧ set.lead.highest ≤ Cycle.highestNumber
  numbers : ∀ d ∈ set.cycles, 1 ≤ d.item.key.cycle ∧ d.item.key.cycle ≤ Cycle.highestNumber
  nodup : (set.numbering.map Prod.snd).Nodup

/-- The cycles of a file set lie within its range below the highest one. -/
def Spaced (set : FileSet) : Prop := ∀ d ∈ set.cycles, set.ageOf d < set.lead.maxRange

/-- Whether a cycle is the highest one and is being cataloged. -/
def isPlusOne (set : FileSet) (d : FileCycle) : Bool :=
  d.item.state = .cataloging && d.item.key.cycle = set.lead.highest

/-- The lead item tells whether the highest cycle is being cataloged. -/
def InStep (set : FileSet) : Prop := set.lead.plusOneExists = set.cycles.any set.isPlusOne

/-- What the window, the counts and the lead item of a file set say of each other. -/
structure Windowed (set : FileSet) : Prop where
  highest : 1 ≤ set.lead.highest ∧ set.lead.highest ≤ Cycle.highestNumber
  numbers : ∀ d ∈ set.cycles, 1 ≤ d.item.key.cycle ∧ d.item.key.cycle ≤ Cycle.highestNumber
  nodup : (set.cycles.map fun d => d.item.key.cycle).Nodup
  within : ∀ d ∈ set.cycles, set.ageOf d < set.lead.maxRange
  range_le : set.currentRange ≤ set.lead.maxRange
  count_eq : set.cycleCount =
    (set.cycles.filter fun d => d.item.state = .live ∨ d.item.state = .dropping).length
  count_le : set.cycleCount ≤ set.currentRange
  plusOne : set.lead.plusOneExists = true ↔
    ∃ d ∈ set.cycles, d.item.key.cycle = set.lead.highest ∧ d.item.state = .cataloging
  /-- Ages are differences that a natural number holds, those of the cycles of the set … -/
  age_exact : ∀ d ∈ set.cycles, d.item.key.cycle ≤ set.lead.highest + Cycle.highestNumber
  /-- … and that of a cycle which is to be added. -/
  next_exact : ∀ spec number, spec.Valid → set.nextNumber spec = .ok number →
    number ≤ set.lead.highest + Cycle.highestNumber

namespace OnCircle

variable {set : FileSet}

theorem nodup_numbers (h : set.OnCircle) : (set.cycles.map fun d => d.item.key.cycle).Nodup := by
  have hnodup := h.nodup
  rwa [numbering, List.map_map] at hnodup

/-- Two cycles of one age are the same. -/
theorem eq_of_ageOf_eq (h : set.OnCircle) {d e : FileCycle} (hd : d ∈ set.cycles)
    (he : e ∈ set.cycles) (hage : set.ageOf d = set.ageOf e) : d = e :=
  List.inj_on_of_nodup_map h.nodup_numbers hd he
    (Cycle.eq_of_age_eq h.highest.2 (h.numbers d hd) (h.numbers e he) hage)

theorem nodup_ages (h : set.OnCircle) : (set.cycles.map set.ageOf).Nodup :=
  List.Nodup.map_on (fun _ hd _ he hage => h.eq_of_ageOf_eq hd he hage) h.nodup_numbers.of_map

/-- There are no more cycles than numbers in the window. -/
theorem length_le_currentRange (h : set.OnCircle) : set.cycles.length ≤ set.currentRange := by
  have hsubset : set.cycles.map set.ageOf ⊆ List.range set.currentRange := by
    intro age hage
    obtain ⟨d, hd, rfl⟩ := List.mem_map.1 hage
    exact List.mem_range.2 (ageOf_lt_currentRange hd)
  have hle := h.nodup_ages.length_le_of_subset hsubset
  rwa [List.length_map, List.length_range] at hle

/-- **The counts follow from the window**, once the lead item is in step. -/
theorem windowed (h : set.OnCircle) (hspaced : set.Spaced) (hlead : set.InStep) :
    set.Windowed where
  highest := h.highest
  numbers := h.numbers
  nodup := h.nodup_numbers
  within := hspaced
  range_le := currentRange_le_iff.2 hspaced
  count_eq := by
    rw [cycleCount, List.countP_eq_length_filter]
    congr 2
    funext d
    cases d.item.state <;> rfl
  count_le := Nat.le_trans List.countP_le_length h.length_le_currentRange
  plusOne := by
    rw [hlead]
    simp only [isPlusOne, List.any_eq_true, Bool.and_eq_true, decide_eq_true_eq]
    constructor
    · rintro ⟨d, hd, hstate, hnumber⟩
      exact ⟨d, hd, hnumber, hstate⟩
    · rintro ⟨d, hd, hnumber, hstate⟩
      exact ⟨d, hd, hstate, hnumber⟩
  age_exact := by
    intro d hd
    exact Nat.le_trans (h.numbers d hd).2 (Nat.le_add_left _ _)
  next_exact := by
    intro spec number hspec hnumber
    exact Nat.le_trans (nextNumber_range hspec hnumber).2 (Nat.le_add_left _ _)

/-- **When a cycle is added, all others become older by as much as the window moves.** -/
theorem age_of_chosen (h : set.OnCircle) {spec : CycleSpec} {number : Nat} {newest : Bool}
    (hchosen : Chosen set spec number newest)
    (hnumber : 1 ≤ number ∧ number ≤ Cycle.highestNumber) {d : FileCycle} (hd : d ∈ set.cycles) :
    Cycle.age (if newest then number else set.lead.highest) d.item.key.cycle =
      set.ageOf d + if newest then Cycle.ahead set.lead.highest number else 0 := by
  have hlt := ageOf_lt_currentRange hd
  cases hchosen with
  | first hnone _ =>
      rw [hnone] at hd
      cases hd
  | hole _ _ _ _ => rfl
  | above _ _ _ hage hrange =>
      -- the highest number itself has no age, and would not be beyond the window
      have hne : number ≠ set.lead.highest := by
        rintro rfl
        rw [Cycle.age_self] at hage
        omega
      have hcircle := Cycle.age_add_ahead h.highest hnumber hne
      have hbound := Cycle.age_lt set.lead.highest number
      refine Cycle.age_of_ahead h.highest hnumber (h.numbers d hd) ?_
      show set.ageOf d + Cycle.ahead set.lead.highest number < Cycle.highestNumber
      omega

end OnCircle

/-! ### Sets that keep their numbers -/

/-- A file set that lost cycles at most; those that stay keep their numbers. -/
structure Kept (old set : FileSet) : Prop where
  name : set.name = old.name
  highest : set.lead.highest = old.lead.highest
  maxRange : set.lead.maxRange = old.lead.maxRange
  numbering : set.numbering.Sublist old.numbering

namespace Kept

variable {old set : FileSet}

/-- Every cycle that stays was one of its identifier and number. -/
theorem exists_cycle (h : Kept old set) {d : FileCycle} (hd : d ∈ set.cycles) :
    ∃ e ∈ old.cycles, e.file = d.file ∧ e.item.key.cycle = d.item.key.cycle := by
  obtain ⟨e, he, heq⟩ := List.mem_map.1 (h.numbering.subset (mem_numbering hd))
  exact ⟨e, he, congrArg Prod.fst heq, congrArg Prod.snd heq⟩

theorem ageOf_eq (h : Kept old set) {d e : FileCycle}
    (hnumber : e.item.key.cycle = d.item.key.cycle) : set.ageOf d = old.ageOf e := by
  rw [ageOf, ageOf, h.highest, hnumber]

theorem onCircle (h : Kept old set) (hold : old.OnCircle) : set.OnCircle := by
  refine ⟨?_, ?_, hold.nodup.sublist (h.numbering.map _)⟩
  · rw [h.highest]
    exact hold.highest
  · intro d hd
    obtain ⟨e, he, -, hnumber⟩ := h.exists_cycle hd
    rw [← hnumber]
    exact hold.numbers e he

theorem spaced (h : Kept old set) (hold : old.Spaced) : set.Spaced := by
  intro d hd
  obtain ⟨e, he, -, hnumber⟩ := h.exists_cycle hd
  rw [h.ageOf_eq hnumber, h.maxRange]
  exact hold e he

theorem modify (hfiles : set.files.Nodup) {cycle after : FileCycle} (hcycle : cycle ∈ set.cycles)
    (hfile : after.file = cycle.file) (hkey : after.item.key = cycle.item.key) :
    Kept set (set.modify cycle.file fun _ => after) := by
  have hsame : (set.modify cycle.file fun _ => after).numbering = set.numbering :=
    map_modify hfiles hcycle (by rw [hfile, hkey])
  exact ⟨rfl, rfl, rfl, hsame ▸ List.Sublist.refl _⟩

theorem refresh (h : Kept old set) : Kept old set.refresh := ⟨h.name, h.highest, h.maxRange, h.numbering⟩

theorem erase (set : FileSet) (file : FileId) : Kept set (set.erase file) :=
  ⟨rfl, rfl, rfl, List.filter_sublist.map _⟩

theorem guarded (set : FileSet) (guarded : Bool) : Kept set (Catalog.guardedSet set guarded) := by
  have hsame : (Catalog.guardedSet set guarded).numbering = set.numbering := by
    unfold FileSet.numbering Catalog.guardedSet
    rw [List.map_map]
    rfl
  exact ⟨rfl, rfl, rfl, hsame ▸ List.Sublist.refl _⟩

end Kept

/-! ### Sets with a cycle added -/

section Added

variable (old : FileSet) (number : Nat) (newest : Bool) (cycle : FileCycle)

@[simp] theorem highest_added : (old.added number newest cycle).lead.highest =
    if newest then number else old.lead.highest := by
  cases newest <;> rfl

@[simp] theorem maxRange_added :
    (old.added number newest cycle).lead.maxRange = old.lead.maxRange := by
  cases newest <;> rfl

theorem ageOf_added (d : FileCycle) : (old.added number newest cycle).ageOf d =
    Cycle.age (if newest then number else old.lead.highest) d.item.key.cycle := by
  rw [ageOf, highest_added]

end Added

end FileSet

namespace Catalog

/-! ### What a step does to the window -/

namespace Step

variable {call : Call} {c : Catalog} {set : FileSet} {space : FreeSpace} {last : Nat}

/-- A step keeps the numbers of a file set, less some, or adds a cycle to one. -/
theorem kept_or_added (hs : Step call c set space last) (hc : c.Indexed) :
    (∃ old ∈ c.sets, FileSet.Kept old set) ∨
      ∃ r old number newest cycle, WellFormed c.config r ∧ c.setFor r call.client = .ok old ∧
        old.chooseNew r.cycle = .ok (number, newest) ∧ cycle.file = ⟨c.lastFile + 1⟩ ∧
        cycle.item.key.cycle = number ∧ set = old.added number newest cycle := by
  cases hs with
  | enter hr hset hnumber _ _ =>
      exact Or.inr ⟨_, _, _, _, _, hr, hset, hnumber, file_fileCycle ..,
        congrArg CycleKey.cycle (key_fileCycle ..), rfl⟩
  | change hset hcycle hstep =>
      obtain ⟨hfile, hkey, -⟩ := hstep.keeps
      exact Or.inl ⟨_, hset, .modify (hc.nodup _ hset) hcycle hfile hkey⟩
  | catalog hset hcycle _ hstep =>
      obtain ⟨hfile, hkey, -⟩ := hstep.keeps
      exact Or.inl ⟨_, hset, (FileSet.Kept.modify (hc.nodup _ hset) hcycle hfile hkey).refresh⟩
  | drop hset _ => exact Or.inl ⟨_, hset, (FileSet.Kept.erase _ _).refresh⟩
  | grow hset hcycle _ _ _ => exact Or.inl ⟨_, hset, .modify (hc.nodup _ hset) hcycle rfl rfl⟩
  | guard hset guarded => exact Or.inl ⟨_, hset, .guarded _ guarded⟩

end Step

/-- A request for a cycle leaves room for it in a set that it makes. -/
theorem WellFormed.maxRange_pos {config : Configuration} {r : Creation} (hr : WellFormed config r)
    (hconfig : 1 ≤ config.defaultMaxRange) : 0 < r.maxRange := by
  cases hr.kind with
  | tape _ _ hrange _ =>
      rcases hrange with heq | ⟨hpos, -⟩
      · exact heq ▸ hconfig
      · exact hpos
  | disk _ _ hrange _ _ => exact hrange ▸ hconfig

section Added

variable {c : Catalog} {client : Client} {r : Creation} {old : FileSet} {number : Nat}
  {newest : Bool} {cycle : FileCycle}

/-- Adding a cycle keeps the numbers on the circle and apart. -/
theorem onCircle_added (h : ∀ set ∈ c.sets, set.OnCircle) (hr : WellFormed c.config r)
    (hset : c.setFor r client = .ok old) (hchoose : old.chooseNew r.cycle = .ok (number, newest))
    (hcycle : cycle.item.key.cycle = number) : (old.added number newest cycle).OnCircle := by
  obtain ⟨hpos, hle, hnew⟩ := chooseNew_spec hr.cycle hchoose
  have hchosen := FileSet.chosen_of_chooseNew hchoose
  rcases setFor_cases hset with hmem | ⟨rfl, -⟩
  · have hold := h old hmem
    refine ⟨?_, ?_, ?_⟩
    · rw [FileSet.highest_added]
      cases newest with
      | false => exact hold.highest
      | true => exact ⟨hpos, hle⟩
    · intro d hd
      rcases FileSet.mem_cycles_added.1 hd with hd | rfl
      · exact hold.numbers d hd
      · rw [hcycle]
        exact ⟨hpos, hle⟩
    · have hnumbers := hold.nodup
      unfold FileSet.numbering at hnumbers ⊢
      rw [FileSet.cycles_added, List.map_append, List.map_append,
        List.map_singleton, List.map_singleton]
      refine List.nodup_append.2 ⟨hnumbers, List.nodup_singleton _, ?_⟩
      rintro n hn m hm rfl
      rw [List.map_map] at hn
      obtain ⟨d, hd, heq⟩ := List.mem_map.1 hn
      exact hnew d hd (heq.trans ((List.mem_singleton.1 hm).trans hcycle))
  · -- a new set has no cycle, so the number becomes the highest one
    cases hchosen with
    | hole hsome _ _ _ => exact absurd rfl hsome
    | above hsome _ _ _ _ => exact absurd rfl hsome
    | first _ _ =>
        refine ⟨⟨hpos, hle⟩, ?_, List.nodup_singleton _⟩
        intro d hd
        rw [List.mem_singleton.1 hd, hcycle]
        exact ⟨hpos, hle⟩

/-- Adding a cycle keeps the window within the range of the set. -/
theorem spaced_added (hc : c.Indexed) (hconfig : 1 ≤ c.config.defaultMaxRange)
    (h : ∀ set ∈ c.sets, set.OnCircle ∧ set.Spaced) (hr : WellFormed c.config r)
    (hset : c.setFor r client = .ok old) (hchoose : old.chooseNew r.cycle = .ok (number, newest))
    (hcycle : cycle.item.key.cycle = number) : (old.added number newest cycle).Spaced := by
  obtain ⟨hpos, hle, -⟩ := chooseNew_spec hr.cycle hchoose
  have hchosen := FileSet.chosen_of_chooseNew hchoose
  intro d hd
  rw [FileSet.ageOf_added, FileSet.maxRange_added]
  rcases FileSet.mem_cycles_added.1 hd with hin | rfl
  · have hmem := mem_sets_of_setFor hset hin
    obtain ⟨honCircle, hspaced⟩ := h old hmem
    rw [honCircle.age_of_chosen hchosen ⟨hpos, hle⟩ hin]
    cases hchosen with
    | first hnone _ => exact absurd hnone (hc.nonempty old hmem)
    | hole _ _ _ _ => exact hspaced d hin
    | above _ _ _ _ hrange =>
        have hlt := FileSet.ageOf_lt_currentRange hin
        rw [if_pos rfl]
        omega
  · rw [hcycle]
    cases hchosen with
    | hole _ _ _ hage => exact hage
    | above hsome _ _ _ hrange =>
        obtain ⟨e, he⟩ := List.exists_mem_of_ne_nil _ hsome
        have hlt := FileSet.ageOf_lt_currentRange he
        rw [if_pos rfl, Cycle.age_self]
        omega
    | first hnone _ =>
        rw [if_pos rfl, Cycle.age_self]
        rcases setFor_cases hset with hmem | ⟨rfl, -⟩
        · exact absurd hnone (hc.nonempty old hmem)
        · exact hr.maxRange_pos hconfig

end Added

/-- A cycle that goes on existing is being cataloged if it was. -/
theorem CycleStep.cataloging_iff {call : Call} {cycle after : FileCycle}
    (h : CycleStep call cycle after) :
    after.item.state = .cataloging ↔ cycle.item.state = .cataloging := by
  cases h with
  | assign _ => exact Iff.rfl
  | release _ _ => exact Iff.rfl
  | delete hlive => exact iff_of_false (by rintro ⟨⟩) (by rw [hlive]; rintro ⟨⟩)
  | write _ _ => exact Iff.rfl

/-- Replacing a cycle by one of its number leaves the lead item in step, if the one is being
cataloged just as the other. -/
theorem inStep_modify {set : FileSet} (hfiles : set.files.Nodup) (h : set.InStep)
    {cycle after : FileCycle} (hcycle : cycle ∈ set.cycles)
    (hkey : after.item.key = cycle.item.key)
    (hstate : after.item.state = .cataloging ↔ cycle.item.state = .cataloging) :
    (set.modify cycle.file fun _ => after).InStep := by
  have hsame : set.isPlusOne after = set.isPlusOne cycle := by
    simp only [FileSet.isPlusOne, hkey, hstate]
  -- cycle by cycle the set answers the same
  have hflags := congrArg (fun flags : List Bool => flags.any id)
    (FileSet.map_modify hfiles hcycle hsame)
  simp only [List.any_map, Function.id_comp] at hflags
  exact h.trans hflags.symm

namespace Step

variable {call : Call} {c : Catalog} {set : FileSet} {space : FreeSpace} {last : Nat}

/-- **Every step keeps the numbers of a file set on the circle and apart.** -/
theorem onCircle (hs : Step call c set space last) (hc : c.Indexed)
    (h : ∀ s ∈ c.sets, s.OnCircle) : set.OnCircle := by
  rcases hs.kept_or_added hc with ⟨old, hold, hkept⟩ |
    ⟨r, old, number, newest, cycle, hr, hset, hchoose, -, hcycle, rfl⟩
  · exact hkept.onCircle (h old hold)
  · exact onCircle_added h hr hset hchoose hcycle

/-- **Every step keeps a file set within its range**, if a new file set has room for a cycle. -/
theorem spaced (hs : Step call c set space last) (hc : c.Indexed)
    (hconfig : 1 ≤ c.config.defaultMaxRange) (h : ∀ s ∈ c.sets, s.OnCircle ∧ s.Spaced) :
    set.Spaced := by
  rcases hs.kept_or_added hc with ⟨old, hold, hkept⟩ |
    ⟨r, old, number, newest, cycle, hr, hset, hchoose, -, hcycle, rfl⟩
  · exact hkept.spaced (h old hold).2
  · exact spaced_added hc hconfig h hr hset hchoose hcycle

/-- **Every step keeps the lead item in step** with whether the highest cycle is being cataloged. -/
theorem inStep (hs : Step call c set space last) (hc : c.Indexed) (h : ∀ s ∈ c.sets, s.InStep) :
    set.InStep := by
  cases hs with
  | enter => rfl
  | change hset hcycle hstep =>
      exact inStep_modify (hc.nodup _ hset) (h _ hset) hcycle hstep.keeps.2.1 hstep.cataloging_iff
  | catalog => rfl
  | drop => rfl
  | grow hset hcycle => exact inStep_modify (hc.nodup _ hset) (h _ hset) hcycle rfl Iff.rfl
  | @guard old hset guarded =>
      have hany : (guardedSet old guarded).cycles.any (guardedSet old guarded).isPlusOne =
          old.cycles.any old.isPlusOne := by
        unfold guardedSet
        rw [List.any_map]
        rfl
      exact (h old hset).trans hany.symm

end Step

/-- The file sets of a catalog that is set up in some way keep to their windows. -/
structure Windows (config : Configuration) (c : Catalog) : Prop where
  config_eq : c.config = config
  onCircle : ∀ set ∈ c.sets, set.OnCircle
  spaced : ∀ set ∈ c.sets, set.Spaced
  inStep : ∀ set ∈ c.sets, set.InStep

theorem windows_empty (config : Configuration) : Windows config (Catalog.empty config) where
  config_eq := rfl
  onCircle := by intro set hset; cases hset
  spaced := by intro set hset; cases hset
  inStep := by intro set hset; cases hset

/-- **Every step keeps the file sets to their windows**, if a new file set has room for a cycle. -/
theorem Step.windows {config : Configuration} (hconfig : 1 ≤ config.defaultMaxRange) {call : Call}
    {c : Catalog} {set : FileSet} {space : FreeSpace} {last : Nat}
    (hs : Step call c set space last) (hc : c.Indexed) (h : Windows config c) :
    Windows config ({ c with space := space, lastFile := last }.put set) := by
  have hboth : ∀ s ∈ c.sets, s.OnCircle ∧ s.Spaced :=
    fun s hs => ⟨h.onCircle s hs, h.spaced s hs⟩
  constructor
  case config_eq => exact (config_put _ _).trans h.config_eq
  case onCircle =>
    exact forall_sets_put hc.ordered h.onCircle (hs.onCircle hc h.onCircle)
  case spaced =>
    exact forall_sets_put hc.ordered h.spaced (hs.spaced hc (h.config_eq ▸ hconfig) hboth)
  case inStep =>
    exact forall_sets_put hc.ordered h.inStep (hs.inStep hc h.inStep)

/-! ### Cycles that stay become older together -/

/-- From one catalog to a later one, the cycles that stay in a file set became older by the same
amount.  Those that were not there have identifiers that had not been given out. -/
def Aged (c c' : Catalog) : Prop :=
  c.lastFile ≤ c'.lastFile ∧ ∃ shift : SetName → Nat,
    ∀ set' ∈ c'.sets, ∀ d' ∈ set'.cycles, d'.file.number ≤ c.lastFile →
      ∃ set ∈ c.sets, set.name = set'.name ∧ ∃ d ∈ set.cycles, d.file = d'.file ∧
        set'.ageOf d' = set.ageOf d + shift set'.name

namespace Aged

theorem refl (c : Catalog) : Aged c c :=
  ⟨Nat.le_refl _, fun _ => 0, fun set hset d hd _ => ⟨set, hset, rfl, d, hd, rfl, rfl⟩⟩

theorem trans {a b c : Catalog} (hab : Aged a b) (hbc : Aged b c) : Aged a c := by
  obtain ⟨hlast, shift, hshift⟩ := hab
  obtain ⟨hlast', shift', hshift'⟩ := hbc
  refine ⟨Nat.le_trans hlast hlast', fun name => shift name + shift' name, ?_⟩
  intro set'' hset'' d'' hd'' hold
  obtain ⟨set', hset', hname', d', hd', hfile', hage'⟩ :=
    hshift' set'' hset'' d'' hd'' (Nat.le_trans hold hlast)
  obtain ⟨set, hset, hname, d, hd, hfile, hage⟩ := hshift set' hset' d' hd' (hfile' ▸ hold)
  refine ⟨set, hset, hname.trans hname', d, hd, hfile.trans hfile', ?_⟩
  rw [hage', hage, hname', Nat.add_assoc]

/-- Putting a set in its place, the cycles of which became older together. -/
theorem put {c : Catalog} (hordered : Ordered c.sets) {set : FileSet} {space : FreeSpace}
    {last : Nat} (hlast : c.lastFile ≤ last) (shift : Nat)
    (h : ∀ d' ∈ set.cycles, d'.file.number ≤ c.lastFile → ∃ old ∈ c.sets, old.name = set.name ∧
      ∃ d ∈ old.cycles, d.file = d'.file ∧ set.ageOf d' = old.ageOf d + shift) :
    Aged c ({ c with space := space, lastFile := last }.put set) := by
  refine ⟨?_, fun name => if name = set.name then shift else 0, ?_⟩
  · rwa [lastFile_put]
  · intro s hs d' hd' hold
    rcases (mem_sets_put (c := { c with space := space, lastFile := last }) hordered).1 hs with
      ⟨rfl, -⟩ | ⟨hs, hne⟩
    · dsimp only
      rw [if_pos rfl]
      exact h d' hd' hold
    · dsimp only
      rw [if_neg hne]
      exact ⟨s, hs, rfl, d', hd', rfl, rfl⟩

end Aged

/-- **After every step the cycles that stay are older together.** -/
theorem Step.aged {call : Call} {c : Catalog} {set : FileSet} {space : FreeSpace} {last : Nat}
    (hs : Step call c set space last) (hc : c.Indexed) (h : ∀ s ∈ c.sets, s.OnCircle) :
    Aged c ({ c with space := space, lastFile := last }.put set) := by
  rcases hs.kept_or_added hc with ⟨old, hold, hkept⟩ |
    ⟨r, old, number, newest, cycle, hr, hset, hchoose, hfile, -, rfl⟩
  · refine Aged.put hc.ordered hs.last_le 0 ?_
    intro d' hd' _
    obtain ⟨d, hd, hfile, hnumber⟩ := hkept.exists_cycle hd'
    exact ⟨old, hold, hkept.name.symm, d, hd, hfile, hkept.ageOf_eq hnumber⟩
  · obtain ⟨hpos, hle, -⟩ := chooseNew_spec hr.cycle hchoose
    have hchosen := FileSet.chosen_of_chooseNew hchoose
    refine Aged.put hc.ordered hs.last_le
      (if newest then Cycle.ahead old.lead.highest number else 0) ?_
    intro d' hd' hknown
    rcases FileSet.mem_cycles_added.1 hd' with hd' | rfl
    · have hmem := mem_sets_of_setFor hset hd'
      refine ⟨old, hmem, (FileSet.name_added ..).symm, d', hd', rfl, ?_⟩
      rw [FileSet.ageOf_added, (h old hmem).age_of_chosen hchosen ⟨hpos, hle⟩ hd']
    · -- the cycle that was added has the next identifier
      rw [hfile] at hknown
      exact absurd hknown (Nat.not_succ_le_self _)

end Catalog

/-! ### The order of age -/

namespace FileSet

variable {set : FileSet}

/-- The identifiers of the cycles of a set, the newest first. -/
def newestFirst (set : FileSet) : List FileId := set.byAge.map FileCycle.file

/-- One cycle of the set is newer than another. -/
def Newer (set : FileSet) (a b : FileId) : Prop :=
  ∃ d ∈ set.cycles, ∃ e ∈ set.cycles, d.file = a ∧ e.file = b ∧ set.ageOf d < set.ageOf e

theorem perm_newestFirst (set : FileSet) : set.newestFirst.Perm set.files :=
  (List.mergeSort_perm _ _).map _

theorem mem_newestFirst {file : FileId} : file ∈ set.newestFirst ↔ file ∈ set.files :=
  set.perm_newestFirst.mem_iff

/-- No two cycles are each newer than the other. -/
theorem Newer.asymm (hfiles : set.files.Nodup) {a b : FileId} (hab : set.Newer a b) :
    ¬set.Newer b a := by
  rintro ⟨e', he', d', hd', hb', ha', hlt'⟩
  obtain ⟨d, hd, e, he, ha, hb, hlt⟩ := hab
  obtain rfl := List.inj_on_of_nodup_map hfiles hd hd' (ha.trans ha'.symm)
  obtain rfl := List.inj_on_of_nodup_map hfiles he he' (hb.trans hb'.symm)
  exact Nat.lt_asymm hlt hlt'

/-- In the order of age every cycle is newer than those after it. -/
theorem OnCircle.pairwise_newestFirst (h : set.OnCircle) : set.newestFirst.Pairwise set.Newer := by
  have hle : set.byAge.Pairwise fun d e => set.ageOf d ≤ set.ageOf e :=
    pairwise_mergeSort_le set.cycles
  have hperm : set.byAge.Perm set.cycles := List.mergeSort_perm _ _
  have hne := List.pairwise_map.1 ((hperm.map set.ageOf).nodup_iff.2 h.nodup_ages)
  refine List.pairwise_map.2 ((List.Pairwise.and_mem.1 (hle.and hne)).imp ?_)
  rintro d e ⟨hd, he, hage, hdiff⟩
  exact ⟨d, hperm.mem_iff.1 hd, e, hperm.mem_iff.1 he, rfl, rfl, Nat.lt_of_le_of_ne hage hdiff⟩

end FileSet

/-- **Cycles that become older together stand in the same order**: what two catalogs list of a file
set, the newest first, agrees on the cycles that are in both. -/
theorem Catalog.Aged.filter_newestFirst {c c' : Catalog} (h : Aged c c') (hc : c.Indexed)
    (hc' : c'.Indexed) {set set' : FileSet} (hset : set ∈ c.sets) (hset' : set' ∈ c'.sets)
    (hname : set'.name = set.name) (honCircle : set.OnCircle) (honCircle' : set'.OnCircle) :
    (set.newestFirst.filter fun file => file ∈ set'.newestFirst) =
      set'.newestFirst.filter fun file => file ∈ set.newestFirst := by
  obtain ⟨-, shift, hshift⟩ := h
  -- who is newer later on among cycles of before was so before
  have hback : ∀ a b, a ∈ set.files → b ∈ set.files → set'.Newer a b → set.Newer a b := by
    rintro a b ha hb ⟨d', hd', e', he', rfl, rfl, hlt⟩
    have horigin : ∀ d' ∈ set'.cycles, d'.file ∈ set.files → ∃ d ∈ set.cycles,
        d.file = d'.file ∧ set'.ageOf d' = set.ageOf d + shift set'.name := by
      intro d' hd' hin
      obtain ⟨old, hold, hsame, d, hd, hfile, hage⟩ :=
        hshift set' hset' d' hd' (hc.le_last set hset _ hin)
      obtain rfl := hc.ordered.eq_of_name_eq hold hset (hsame.trans hname)
      exact ⟨d, hd, hfile, hage⟩
    obtain ⟨d, hd, hfile, hage⟩ := horigin d' hd' ha
    obtain ⟨e, he, hfile', hage'⟩ := horigin e' he' hb
    exact ⟨d, hd, e, he, hfile, hfile', by omega⟩
  have hnodup := set.perm_newestFirst.nodup_iff.2 (hc.nodup set hset)
  have hnodup' := set'.perm_newestFirst.nodup_iff.2 (hc'.nodup set' hset')
  -- both lists hold the cycles that are in both sets, in the order of the earlier one
  refine List.Perm.eq_of_pairwise ?_
    (honCircle.pairwise_newestFirst.sublist List.filter_sublist) ?_ ?_
  · intro a b _ _ hab hba
    exact absurd hba (hab.asymm (hc.nodup set hset))
  · have hsorted := honCircle'.pairwise_newestFirst.filter fun file => file ∈ set.newestFirst
    refine (List.Pairwise.and_mem.1 hsorted).imp ?_
    rintro a b ⟨ha, hb, hab⟩
    exact hback a b (FileSet.mem_newestFirst.1 (of_decide_eq_true (List.mem_filter.1 ha).2))
      (FileSet.mem_newestFirst.1 (of_decide_eq_true (List.mem_filter.1 hb).2)) hab
  · refine (List.perm_ext_iff_of_nodup (hnodup.filter _) (hnodup'.filter _)).2 ?_
    intro file
    simp [List.mem_filter, and_comm]

end FileDirectory
