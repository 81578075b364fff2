/-
**Catalogs that are narrowed.**

When cycles are released, nothing comes into the catalog.  A file set keeps its lead item and the
cycles that are left, in their order, and goes with the last of them.  What such a catalog is like
follows from the one before it and from what its identifiers find: two that find the same have the
same file sets, and with the pack divided among them the same free space, whatever order they were
narrowed in.

Main definitions:

* `FileDirectory.FileSet.within` — a file set with the cycles that a catalog has;
* `FileDirectory.Catalog.Narrowed` — a catalog that is left of another.

Main results:

* `FileDirectory.Catalog.Narrowed.trans` — narrowing goes on;
* `FileDirectory.Catalog.narrowed_release` — a release narrows the catalog;
* `FileDirectory.Catalog.Narrowed.eq` — what is left is told by what identifiers find.
-/

import FileDirectory.Proofs.Catalog.Divided
import FileDirectory.Proofs.Catalog.Life
import FileDirectory.Proofs.Catalog.Window

set_option autoImplicit false

namespace FileDirectory

/-! ### File sets within a catalog -/

namespace FileSet

/-- A file set with those of its cycles that a catalog has, as the catalog has them. -/
def within (set : FileSet) (c : Catalog) : FileSet :=
  FileSet.refresh { set with cycles := set.files.filterMap c.cycle? }

@[simp] theorem cycles_within (set : FileSet) (c : Catalog) :
    (set.within c).cycles = set.files.filterMap c.cycle? := rfl

/-- Two sets of one lead item, but for what it tells of the highest cycle. -/
theorem within_congr {s t : FileSet} {c : Catalog}
    (hlead : { s.lead with plusOneExists := false } = { t.lead with plusOneExists := false })
    (hcycles : (s.within c).cycles = (t.within c).cycles) : s.within c = t.within c :=
  calc s.within c
      = FileSet.refresh ⟨{ s.lead with plusOneExists := false }, (s.within c).cycles⟩ := rfl
    _ = FileSet.refresh ⟨{ t.lead with plusOneExists := false }, (t.within c).cycles⟩ := by
        rw [hlead, hcycles]
    _ = t.within c := rfl

/-- A lead item that is in step need not be brought into step. -/
theorem refresh_of_inStep {set : FileSet} (h : set.InStep) : set.refresh = set := by
  obtain ⟨lead, cycles⟩ := set
  have hlead : { lead with plusOneExists := cycles.any (isPlusOne ⟨lead, cycles⟩) } = lead := by
    rw [← h]
  exact congrArg (FileSet.mk · cycles) hlead

/-- What a set has within a catalog follows from what the catalog's identifiers find. -/
theorem within_eq {set : FileSet} {c c' : Catalog} (h : ∀ file, c.cycle? file = c'.cycle? file) :
    set.within c = set.within c' := by
  have hsame : c.cycle? = c'.cycle? := funext h
  unfold within
  rw [hsame]

/-- A set of a catalog is within it as it is. -/
theorem within_self {set : FileSet} {c : Catalog} (hc : c.Indexed) (hset : set ∈ c.sets)
    (hstep : set.InStep) : set.within c = set := by
  have hcycles : set.files.filterMap c.cycle? = set.cycles := by
    rw [files, List.filterMap_map]
    refine (List.filterMap_congr fun d hd => ?_).trans List.filterMap_some
    exact Catalog.cycle?_of_mem hc hset hd
  unfold within
  rw [hcycles]
  exact refresh_of_inStep hstep

/-- The identifiers of the cycles that a catalog has. -/
theorem files_within {set : FileSet} {c : Catalog} (hc : c.Indexed) :
    (set.within c).files = set.files.filter fun file => (c.cycle? file).isSome := by
  have hfound : ∀ files : List FileId, (files.filterMap c.cycle?).map FileCycle.file =
      files.filter fun file => (c.cycle? file).isSome := by
    intro files
    induction files with
    | nil => rfl
    | cons file rest ih =>
        cases hcycle : c.cycle? file with
        | none =>
            rw [List.filterMap_cons_none hcycle, ih, List.filter_cons_of_neg (by simp [hcycle])]
        | some d =>
            rw [List.filterMap_cons_some hcycle, List.map_cons, ih,
              List.filter_cons_of_pos (by simp [hcycle]), Catalog.file_of_cycle? hc hcycle]
  exact hfound set.files

/-- Within a catalog that has no cycle that another has not, it does not matter whether a set was
within the other before. -/
theorem within_within (set : FileSet) {c c' : Catalog} (hc : c.Indexed)
    (hgone : ∀ file, c.cycle? file = none → c'.cycle? file = none) :
    (set.within c).within c' = set.within c' := by
  refine within_congr rfl ?_
  rw [cycles_within, cycles_within, files_within hc, List.filterMap_filter]
  refine List.filterMap_congr fun file _ => ?_
  cases hcycle : c.cycle? file with
  | none => simp [hgone file hcycle]
  | some d => simp

/-- Within a catalog that does not have a cycle, it does not matter whether a set had it. -/
theorem cycles_within_erase {set : FileSet} {c : Catalog} {file : FileId}
    (hgone : c.cycle? file = none) : ((set.erase file).within c).cycles = (set.within c).cycles := by
  rw [cycles_within, cycles_within, files_erase, List.filterMap_filter]
  refine List.filterMap_congr fun other _ => ?_
  by_cases heq : other = file
  · simp [heq, hgone]
  · simp [heq]

end FileSet

namespace Catalog

/-! ### What is left of a catalog -/

/-- A file set, unless it has no cycle. -/
def remaining (set : FileSet) : Option FileSet := if set.cycles = [] then none else some set

/-- A catalog that is left of another: it has no other cycles, and each file set that has a cycle left
has its lead item and its cycles in the order that they were in. -/
structure Narrowed (c c' : Catalog) : Prop where
  config_eq : c'.config = c.config
  last_eq : c'.lastFile = c.lastFile
  gone : ∀ file, c.cycle? file = none → c'.cycle? file = none
  find?_eq : ∀ name, c'.find? name = (c.find? name).bind fun set => remaining (set.within c')

variable {c c' : Catalog}

theorem Narrowed.refl (hc : c.Indexed) (hsteps : ∀ set ∈ c.sets, set.InStep) : Narrowed c c where
  config_eq := rfl
  last_eq := rfl
  gone := fun _ h => h
  find?_eq := by
    intro name
    cases hfind : c.find? name with
    | none => rfl
    | some set =>
        obtain ⟨hset, -⟩ := (find?_eq_some_iff hc.ordered).1 hfind
        rw [Option.bind_some, FileSet.within_self hc hset (hsteps set hset), remaining,
          if_neg (hc.nonempty set hset)]

/-- **Narrowing goes on.** -/
theorem Narrowed.trans {c'' : Catalog} (h : Narrowed c c') (h' : Narrowed c' c'')
    (hc' : c'.Indexed) : Narrowed c c'' where
  config_eq := h'.config_eq.trans h.config_eq
  last_eq := h'.last_eq.trans h.last_eq
  gone := fun file hnone => h'.gone file (h.gone file hnone)
  find?_eq := by
    intro name
    rw [h'.find?_eq, h.find?_eq]
    cases c.find? name with
    | none => rfl
    | some set =>
        have hwithin := set.within_within hc' h'.gone
        rw [Option.bind_some, Option.bind_some, remaining]
        split
        · rename_i hnone
          have hempty : (set.within c'').cycles = [] := by
            rw [← hwithin, FileSet.cycles_within, FileSet.files, hnone]
            rfl
          rw [Option.bind_none, remaining, if_pos hempty]
        · rw [Option.bind_some, hwithin]

/-! ### Releases -/

section Put

variable {set after : FileSet} {space : FreeSpace}

/-- A set that was put in its place with what the catalog then has of its cycles narrows the
catalog. -/
theorem narrowed_put (hc : c.Indexed) (hafter : ({ c with space := space }.put after).Indexed)
    (hsteps : ∀ s ∈ c.sets, s.InStep) (hstep : after.InStep) (hset : set ∈ c.sets)
    (hlead : { after.lead with plusOneExists := false } = { set.lead with plusOneExists := false })
    (hcycles : (after.within ({ c with space := space }.put after)).cycles =
      (set.within ({ c with space := space }.put after)).cycles)
    (hgone : ∀ file, c.cycle? file = none →
      ({ c with space := space }.put after).cycle? file = none) :
    Narrowed c ({ c with space := space }.put after) := by
  have hwithin := FileSet.within_congr hlead hcycles
  have hname : after.name = set.name := by
    have hnames := congrArg LeadItem.name hlead
    exact hnames
  have hsteps' : ∀ s ∈ ({ c with space := space }.put after).sets, s.InStep :=
    forall_sets_put hc.ordered hsteps hstep
  have hmem : ∀ s, s ∈ ({ c with space := space }.put after).sets ↔
      (s = after ∧ after.cycles ≠ []) ∨ s ∈ c.sets ∧ s.name ≠ after.name := fun s =>
    mem_sets_put (c := { c with space := space }) hc.ordered
  have hself : ∀ s ∈ ({ c with space := space }.put after).sets,
      remaining (s.within ({ c with space := space }.put after)) = some s := by
    intro s hs
    rw [FileSet.within_self hafter hs (hsteps' s hs), remaining, if_neg (hafter.nonempty s hs)]
  refine ⟨config_put _ _, lastFile_put _ _, hgone, fun name => ?_⟩
  rw [find?_put (c := { c with space := space }) hc.ordered]
  -- under another name the catalog finds what it found before
  by_cases heq : name = after.name
  · have hfind : c.find? name = some set :=
      (find?_eq_some_iff hc.ordered).2 ⟨hset, (heq.trans hname).symm⟩
    rw [if_pos heq, hfind, Option.bind_some, ← hwithin]
    by_cases hnone : after.cycles = []
    · rw [if_pos hnone, remaining, if_pos]
      rw [FileSet.cycles_within, FileSet.files, hnone]
      rfl
    · rw [if_neg hnone, hself after ((hmem after).2 (Or.inl ⟨rfl, hnone⟩))]
  · rw [if_neg heq]
    change c.find? name = _
    cases hfind : c.find? name with
    | none => rfl
    | some s =>
        obtain ⟨hs, hsname⟩ := (find?_eq_some_iff hc.ordered).1 hfind
        rw [Option.bind_some, hself s ((hmem s).2 (Or.inr ⟨hs, hsname ▸ heq⟩))]

/-- So does one whose cycles have the identifiers that they had. -/
theorem narrowed_put_of_files (hc : c.Indexed) (hafter : (c.put after).Indexed)
    (hsteps : ∀ s ∈ c.sets, s.InStep) (hstep : after.InStep) (hset : set ∈ c.sets)
    (hlead : { after.lead with plusOneExists := false } = { set.lead with plusOneExists := false })
    (hfiles : after.files = set.files)
    (hgone : ∀ file, c.cycle? file = none → (c.put after).cycle? file = none) :
    Narrowed c (c.put after) :=
  narrowed_put hc hafter hsteps hstep hset hlead
    (by rw [FileSet.cycles_within, FileSet.cycles_within, hfiles]) hgone

end Put

/-- **A release narrows the catalog.** -/
theorem narrowed_release (hc : c.Indexed) (hsteps : ∀ s ∈ c.sets, s.InStep) {call : Call}
    {file : FileId} {share : Share} {change : Change Unit}
    (h : c.release call file share = .ok change) : Narrowed c change.catalog := by
  have hafter := (steps_release h).indexed hc
  obtain ⟨set, hset, cycle, hcycle, rfl, hheld, rfl⟩ := release_eq_ok h
  dsimp only at hafter ⊢
  have hfound := cycle?_settle hc hset hcycle hafter
  have hgone : ∀ file, c.cycle? file = none →
      (c.settle call set (released cycle call share)).cycle? file = none := by
    intro file hnone
    have hne : file ≠ cycle.file := by
      rintro rfl
      rw [cycle?_of_mem hc hset hcycle] at hnone
      cases hnone
    rw [hfound, if_neg hne, hnone]
  have hfiles : ∀ changed : FileCycle, changed.file = cycle.file →
      (set.modify cycle.file fun _ => changed).files = set.files := by
    intro changed hfile
    rw [← hfile]
    exact set.files_modify
  obtain ⟨-, heq⟩ | ⟨-, heq⟩ | ⟨-, heq⟩ := settle_cases c call set (released cycle call share)
  · rw [heq] at hafter hgone ⊢
    have hnone := cycle?_put_erase hc hafter hset rfl hcycle rfl cycle.file
    rw [if_pos rfl] at hnone
    exact narrowed_put hc hafter hsteps rfl hset rfl (FileSet.cycles_within_erase hnone) hgone
  · rw [heq] at hafter hgone ⊢
    exact narrowed_put_of_files hc hafter hsteps rfl hset rfl
      (hfiles (cataloged (released cycle call share) call.now) rfl) hgone
  · rw [heq] at hafter hgone ⊢
    have hstep : CycleStep call cycle (released cycle call share) := .release share hheld
    exact narrowed_put_of_files hc hafter hsteps ((Step.change hset hcycle hstep).inStep hc hsteps)
      hset rfl (hfiles (released cycle call share) rfl) hgone

/-! ### Telling what is left -/

/-- **What is left is told by what identifiers find**: two catalogs that are left of one, and among
whose cycles and free space the same pack is divided, are equal if they have the same cycles. -/
theorem Narrowed.eq {a b : Catalog} (ha : Narrowed c a) (hb : Narrowed c b) (hia : a.Indexed)
    (hib : b.Indexed) (hda : a.Divided) (hdb : b.Divided)
    (hcapacity : a.space.capacity = b.space.capacity)
    (hcycles : ∀ file, a.cycle? file = b.cycle? file) : a = b := by
  have hfind : ∀ name, a.find? name = b.find? name := by
    intro name
    rw [ha.find?_eq, hb.find?_eq]
    simp only [FileSet.within_eq hcycles]
  have hsets : a.sets = b.sets := by
    refine eq_of_pairwise_lt FileSet.name hia.ordered hib.ordered fun set => ?_
    have hboth : a.find? set.name = some set ↔ b.find? set.name = some set := by rw [hfind]
    rwa [find?_eq_some_iff hia.ordered, find?_eq_some_iff hib.ordered, and_iff_left rfl,
      and_iff_left rfl] at hboth
  have hspace : a.space = b.space := by
    refine hda.sound.eq_of_perm hdb.sound hcapacity ?_
    have hperm := hda.perm.trans (hcapacity ▸ hdb.perm.symm)
    rw [hsets] at hperm
    exact (List.perm_append_left_iff _).1 hperm
  have hconfig := ha.config_eq.trans hb.config_eq.symm
  have hlast := ha.last_eq.trans hb.last_eq.symm
  obtain ⟨config, sets, space, last⟩ := a
  cases hconfig
  cases hlast
  cases hsets
  cases hspace
  rfl

end Catalog

end FileDirectory
