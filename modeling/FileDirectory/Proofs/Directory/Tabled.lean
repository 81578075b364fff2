/-
**The index is in step with the catalog.**

In every state the tables of the index agree with its nodes, and the cycles that it has under a name
are those of the file set of that name, in the order of their creation.  Looking up through the index
therefore finds what a search through the catalog finds.

Main definitions:

* `FileDirectory.Directory.Tabled` — the index is in step with the catalog.

Main results:

* `FileDirectory.Directory.Reached.tabled` — so it is in every state;
* `FileDirectory.Directory.Tabled.find?_eq`, `FileDirectory.Directory.Tabled.locate?_eq`,
  `FileDirectory.Directory.Tabled.listed_eq` — what is looked up.
-/

import FileDirectory.Proofs.Catalog.Moved
import FileDirectory.Proofs.Directory.Performed

set_option autoImplicit false

namespace FileDirectory.Directory

open Catalog

/-- The index agrees with itself and has under every name the cycles of the file set. -/
structure Tabled (d : Directory) : Prop where
  sound : d.index.Sound
  files : d.index.filesOf = d.catalog.filesOf

variable {d d' : Directory}

/-! ### Operations keep the index in step -/

/-- An identifier that was not given out is not in the index. -/
theorem Tabled.lookup_eq_none (h : d.Tabled) (hd : d.catalog.Indexed) {file : FileId}
    (hfile : d.catalog.lastFile < file.number) : d.index.files.lookup file = none := by
  refine h.sound.lookup_eq_none_iff.2 fun name hin => ?_
  rw [h.files] at hin
  obtain ⟨set, hset, -, hmem⟩ := (mem_filesOf hd.ordered).1 hin
  exact Nat.not_le.2 hfile (hd.le_last set hset file hmem)

/-- **Every operation keeps the index in step.** -/
theorem Performed.tabled {call : Call} {r : Request} (h : Performed call r d d')
    (hindexed : d.catalog.Indexed) (hd : d.Tabled) : d'.Tabled := by
  cases h with
  | refused => exact hd
  | performed change hasked =>
      obtain ⟨hfiles, hfresh⟩ := hasked.moved hindexed
      obtain ⟨hsound, hmoved⟩ := hd.sound.move (m := change.moved) fun name file heq => by
        rw [hfresh name file heq]
        exact hd.lookup_eq_none hindexed (Nat.lt_succ_self _)
      refine ⟨?_, ?_⟩
      · rw [index_perform_ok]
        exact hsound
      · rw [index_perform_ok, catalog_perform_ok, hmoved, hfiles, hd.files]

/-! ### The beginning -/

theorem tabled_of_empty (hindex : d.index = {}) (hsets : d.catalog.sets = []) : d.Tabled := by
  refine ⟨hindex ▸ Index.sound_empty, ?_⟩
  rw [hindex]
  funext name
  unfold filesOf Catalog.find?
  rw [hsets]
  rfl

theorem Made.tabled {config : Configuration} (h : Made config d) : d.Tabled := by
  have hindex : d.index = {} := by
    rcases h with rfl | ⟨device, hformat⟩
    · rfl
    · obtain ⟨device', rfl, -⟩ := format_eq_ok hformat
      rfl
  refine tabled_of_empty hindex ?_
  rw [h.catalog_eq]
  rfl

theorem Recovered.tabled {config : Configuration} (h : Recovered config d) : d.Tabled := by
  have hd := h.indexed
  obtain ⟨device, device', hrecover⟩ := h
  obtain ⟨hsound, hfiles⟩ := Index.sound_ofSets hd.nodup_files
  rw [← index_recover hrecover] at hsound hfiles
  refine ⟨hsound, funext fun name => ?_⟩
  rw [hfiles]
  exact flatMap_filter_name hd.ordered name

/-- The index is in step in every state, and cycles are told apart. -/
theorem Reached.tabled {config : Configuration}
    (h : Reached (fun d => Made config d ∨ Recovered config d) d) :
    d.catalog.Indexed ∧ d.Tabled := by
  refine h.performed_induction ?_ ?_
  · rintro d (hmade | hrecovered)
    · rw [hmade.catalog_eq]
      exact ⟨indexed_empty config, hmade.tabled⟩
    · exact ⟨hrecovered.indexed, hrecovered.tabled⟩
  · intro call r d d' hindexed hd hperformed
    exact hperformed.tabled hindexed hd

/-! ### Looking up through the index -/

section LookingUp

variable (h : d.Tabled) (hd : d.catalog.Indexed)

include h hd

/-- A name has no node exactly if it has no file set. -/
theorem Tabled.named?_eq_none_iff (name : SetName) :
    d.index.named? name = none ↔ d.catalog.find? name = none := by
  rw [← h.sound.filesOf_eq_nil, h.files, hd.filesOf_eq_nil]

/-- **A name finds through the index what it finds in the catalog.** -/
theorem Tabled.find?_eq (name : SetName) : d.find? name = d.catalog.find? name := by
  unfold Directory.find?
  cases hnamed : d.index.named? name with
  | none => exact ((h.named?_eq_none_iff hd name).1 hnamed).symm
  | some found =>
      obtain ⟨-, hname⟩ := h.sound.named?_iff.1 hnamed
      rw [Option.bind_some, hname]

/-- The node of a cycle is that of the file set that has the cycle. -/
theorem Tabled.mem_files_iff {file : FileId} {name : SetName} :
    (∃ position node, d.index.found? file = some (position, node) ∧ node.name = name) ↔
      ∃ set ∈ d.catalog.sets, set.name = name ∧ file ∈ set.files := by
  rw [← h.sound.mem_filesOf, h.files, mem_filesOf hd.ordered]

/-- **An identifier finds through the index what it finds in the catalog.** -/
theorem Tabled.locate?_eq (file : FileId) : d.locate? file = d.catalog.locate? file := by
  refine Option.ext fun found => ?_
  obtain ⟨set, cycle⟩ := found
  rw [locate?_eq_some_iff hd]
  unfold Directory.locate?
  simp only [Option.bind_eq_bind, Option.bind_eq_some_iff, Prod.exists, Option.pure_def,
    Option.some.injEq, Prod.mk.injEq]
  constructor
  · rintro ⟨position, node, -, s, hs, e, he, rfl, rfl⟩
    exact ⟨((find?_eq_some_iff hd.ordered).1 hs).1, FileSet.find?_eq_some he⟩
  · rintro ⟨hset, hcycle, rfl⟩
    have hin : cycle.file ∈ set.files := List.mem_map_of_mem hcycle
    obtain ⟨position, node, hfound, hname⟩ := (h.mem_files_iff hd).2 ⟨set, hset, rfl, hin⟩
    refine ⟨position, node, hfound, set, (find?_eq_some_iff hd.ordered).2 ⟨hset, hname.symm⟩, cycle,
      ?_, rfl, rfl⟩
    cases hfind : set.find? cycle.file with
    | none => simpa using List.find?_eq_none.1 hfind cycle hcycle
    | some other =>
        obtain ⟨hother, hfile⟩ := FileSet.find?_eq_some hfind
        rw [List.inj_on_of_nodup_map (hd.nodup set hset) hother hcycle hfile]

/-- **The index lists the file sets of the catalog**, in the order of their names. -/
theorem Tabled.listed_eq : d.listed = d.catalog.sets := by
  have hlisted : d.listed = (d.index.names.mergeSort fun a b => (compare a.1 b.1).isLE).filterMap
      fun entry => d.catalog.find? entry.1 := by
    unfold Directory.listed Index.listed
    dsimp only
    rw [List.filterMap_filter, List.filterMap_filterMap]
    refine List.filterMap_congr fun entry hentry => ?_
    obtain ⟨name, place⟩ := entry
    have hlookup := (lookup_eq_some_iff h.sound.distinct).2 (List.mem_mergeSort.1 hentry)
    obtain ⟨node, hnode, rfl⟩ := h.sound.named name place hlookup
    simp [hnode, (h.sound.node place node hnode).2.1]
  rw [hlisted]
  refine eq_of_pairwise_lt FileSet.name ?_ hd.ordered fun set => ?_
  · refine (List.pairwise_filterMap).2 ((pairwise_lt_mergeSort Prod.fst h.sound.distinct).imp ?_)
    intro a b hlt s hs t ht
    rw [((find?_eq_some_iff hd.ordered).1 hs).2, ((find?_eq_some_iff hd.ordered).1 ht).2]
    exact hlt
  · rw [List.mem_filterMap]
    constructor
    · rintro ⟨entry, -, hfind⟩
      exact ((find?_eq_some_iff hd.ordered).1 hfind).1
    · intro hset
      have hfind : d.catalog.find? set.name = some set :=
        (find?_eq_some_iff hd.ordered).2 ⟨hset, rfl⟩
      cases hnamed : d.index.named? set.name with
      | none =>
          rw [(h.named?_eq_none_iff hd _).1 hnamed] at hfind
          cases hfind
      | some found =>
          have hlookup := (Index.named?_eq_some.1 hnamed).1
          exact ⟨(set.name, found.1), List.mem_mergeSort.2
            ((lookup_eq_some_iff h.sound.distinct).1 hlookup), hfind⟩

end LookingUp

end FileDirectory.Directory
