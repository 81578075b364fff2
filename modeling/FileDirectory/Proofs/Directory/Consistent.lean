/-
**The index of a directory that was made empty.**

From the beginning on the tables of the index have exactly the identifiers of the cycles that there
are and the names of the file sets that there are, each with the position or the place of its own.
Every cycle carries the name, the type and the guard of its file set.  An identifier is never given
out again.

Main definitions:

* `FileDirectory.FileSet.Uniform` — the cycles of a set have its type and its guard;
* `FileDirectory.Directory.Consistent` — the tables, the cycles and the identifiers are in order.

Main results:

* `FileDirectory.Catalog.Step.uniform` — every step keeps the cycles uniform;
* `FileDirectory.Directory.consistent_of_reached` — everything is in order in every state.
-/

import FileDirectory.Proofs.Directory.Newest
import FileDirectory.Proofs.Directory.Removed

set_option autoImplicit false

namespace FileDirectory

/-! ### The type and the guard of a cycle -/

/-- Every cycle of a set has the type and the guard of the lead item. -/
def FileSet.Uniform (set : FileSet) : Prop :=
  ∀ c ∈ set.cycles, c.item.fileType = set.lead.fileType ∧ c.item.inhibit.guarded = set.lead.guarded

namespace Catalog

theorem CycleStep.inhibit_eq {call : Call} {cycle after : FileCycle} (h : CycleStep call cycle after) :
    after.item.fileType = cycle.item.fileType ∧ after.item.inhibit = cycle.item.inhibit := by
  cases h <;> exact ⟨rfl, rfl⟩

theorem CatalogStep.inhibit_eq {call : Call} {cycle after : FileCycle}
    (h : CatalogStep call cycle after) :
    after.item.fileType = cycle.item.fileType ∧ after.item.inhibit = cycle.item.inhibit := by
  cases h <;> exact ⟨rfl, rfl⟩

/-- A cycle that is created has the type and the guard of the lead item that it is made from. -/
theorem uniform_fileCycle (r : Creation) (lead : LeadItem) (number : Nat) (file : FileId)
    (call : Call) (regions : List Region) :
    (r.fileCycle lead number file call regions).item.fileType = lead.fileType ∧
      (r.fileCycle lead number file call regions).item.inhibit.guarded = lead.guarded := by
  unfold Creation.fileCycle FileCycle.assign Creation.item
  dsimp only
  split <;> exact ⟨rfl, rfl⟩

/-- A cycle in the place of another one keeps a set uniform if it has the type and the guard of the
other. -/
theorem uniform_modify {set : FileSet} {cycle after : FileCycle} (h : set.Uniform)
    (hcycle : cycle ∈ set.cycles) (hkeeps : after.item.fileType = cycle.item.fileType ∧
      after.item.inhibit = cycle.item.inhibit) :
    (set.modify cycle.file fun _ => after).Uniform := by
  obtain ⟨htype, hguard⟩ := h cycle hcycle
  refine FileSet.forall_cycles_modify h ?_
  rw [hkeeps.1, hkeeps.2]
  exact ⟨htype, hguard⟩

/-- **Every step keeps the cycles of every set uniform.** -/
theorem Step.uniform {call : Call} {c : Catalog} {set : FileSet} {space : FreeSpace} {last : Nat}
    (hc : ∀ s ∈ c.sets, s.Uniform) (h : Step call c set space last) : set.Uniform := by
  cases h with
  | @enter r old number newest regions _ _ hset =>
      have hold : old.Uniform := by
        rcases setFor_cases hset with hin | ⟨rfl, -⟩
        · exact hc old hin
        · intro c hc
          cases hc
      have hlead : (old.added number newest (r.fileCycle old.lead number ⟨c.lastFile + 1⟩ call
          regions)).lead.fileType = old.lead.fileType ∧
          (old.added number newest (r.fileCycle old.lead number ⟨c.lastFile + 1⟩ call
            regions)).lead.guarded = old.lead.guarded := by
        cases newest <;> exact ⟨rfl, rfl⟩
      change (old.added number newest _).Uniform
      intro d hd
      rw [hlead.1, hlead.2]
      rcases FileSet.mem_cycles_added.1 hd with hd | rfl
      · exact hold d hd
      · exact uniform_fileCycle ..
  | change hset hcycle hstep => exact uniform_modify (hc _ hset) hcycle hstep.inhibit_eq
  | catalog hset hcycle _ hstep => exact uniform_modify (hc _ hset) hcycle hstep.inhibit_eq
  | drop hset =>
      intro d hd
      exact hc _ hset d (FileSet.mem_cycles_erase.1 hd).1
  | grow hset hcycle => exact uniform_modify (hc _ hset) hcycle ⟨rfl, rfl⟩
  | guard hset guarded =>
      intro d hd
      obtain ⟨e, he, rfl⟩ := List.mem_map.1 hd
      exact ⟨(hc _ hset e he).1, rfl⟩

end Catalog

namespace Directory

open Catalog

variable {config : Configuration} {d : Directory}

theorem Reached.uniform (h : Reached (Made config) d) : ∀ set ∈ d.catalog.sets, set.Uniform := by
  refine (h.induction (P := fun c => ∀ set ∈ c.sets, set.Uniform) ?_ ?_).2
  · intro d hd
    rw [hd.catalog_eq]
    exact ⟨indexed_empty config, fun set hset => by cases hset⟩
  · intro call c set space last hindexed hc hstep
    exact forall_sets_put hindexed.ordered hc (hstep.uniform hc)

/-! ### Everything in order -/

/-- The tables of the index, the cycles and the identifiers are in order. -/
structure Consistent (d : Directory) : Prop where
  /-- The table of identifiers has those of the cycles that there are. -/
  files : (d.index.files.map Prod.fst).Perm (d.catalog.cycles.map FileCycle.file)
  /-- Each has the position of the slot that holds it, in the node of the set that has the cycle. -/
  positions : ∀ file position, d.index.files.lookup file = some position →
    ∃ node, d.index.node? position.place = some node ∧ node.fileAt? position.slot = some file ∧
      ∃ set ∈ d.catalog.sets, set.name = node.name ∧ ∃ c ∈ set.cycles, c.file = file
  /-- The table of names has those of the file sets that there are. -/
  names : (d.index.names.map Prod.fst).Perm (d.catalog.sets.map FileSet.name)
  /-- Each has the place of a node that is not removed, whose slots hold the cycles of the set. -/
  places : ∀ name place, d.index.names.lookup name = some place →
    ∃ node, d.index.node? place = some node ∧ node.name = name ∧ node.removed = false ∧
      ∃ set ∈ d.catalog.sets, set.name = name ∧ set.cycles ≠ [] ∧
        node.files = set.cycles.map FileCycle.file
  /-- Every cycle carries the name, the type and the guard of its file set. -/
  cycles : ∀ set ∈ d.catalog.sets, ∀ c ∈ set.cycles, c.item.key.set = set.lead.name ∧
    c.item.fileType = set.lead.fileType ∧ c.item.inhibit.guarded = set.lead.guarded
  /-- Every file set is listed, once, in the order of the names. -/
  sets : (d.catalog.sets.map FileSet.name).Pairwise (fun a b => compare a b = .lt) ∧
    ∀ call, call.expired 0 = false → d.listSets call = .ok (d.catalog.sets.map FileSet.info)
  /-- Whatever is created from now on has a higher identifier than what there is now. -/
  fresh : ∀ known, d.locate? known ≠ none → ∀ e, Reached (· = d) e → ∀ call r file,
    r.created ≠ none → (e.handle call r).1 = .ok (.file file) →
      known.number < file.number ∧ (e.handle call r).2.locate? file ≠ none
  /-- An identifier that has come to find nothing goes on finding nothing. -/
  gone : ∀ known, d.locate? known ≠ none → ∀ e, Reached (· = d) e → e.locate? known = none →
    ∀ e', Reached (· = e) e' → e'.locate? known = none

/-! ### The tables -/

section Tables

variable (h : d.Tabled) (hd : d.catalog.Indexed)

include h hd

/-- The index has exactly the identifiers of the cycles. -/
theorem Tabled.perm_files :
    (d.index.files.map Prod.fst).Perm (d.catalog.cycles.map FileCycle.file) := by
  have hcycles : d.catalog.cycles.map FileCycle.file = d.catalog.sets.flatMap FileSet.files := by
    unfold Catalog.cycles
    rw [List.map_flatMap]
    rfl
  rw [hcycles]
  refine (List.perm_ext_iff_of_nodup h.sound.nodup hd.nodup_files).2 fun file => ?_
  have hlookup : file ∈ d.index.files.map Prod.fst ↔ ¬d.index.files.lookup file = none := by
    constructor
    · intro hfile hnone
      obtain ⟨entry, hentry, rfl⟩ := List.mem_map.1 hfile
      rw [(lookup_eq_some_iff h.sound.nodup).2 hentry] at hnone
      cases hnone
    · intro hsome
      by_contra hnot
      exact hsome (FileDirectory.lookup_eq_none hnot)
  rw [hlookup, h.sound.lookup_eq_none_iff, h.files, List.mem_flatMap]
  simp only [mem_filesOf hd.ordered, not_forall, not_not]
  constructor
  · rintro ⟨name, set, hset, -, hfile⟩
    exact ⟨set, hset, hfile⟩
  · rintro ⟨set, hset, hfile⟩
    exact ⟨set.name, set, hset, rfl, hfile⟩

/-- The index has exactly the names of the file sets. -/
theorem Tabled.perm_names :
    (d.index.names.map Prod.fst).Perm (d.catalog.sets.map FileSet.name) := by
  refine (List.perm_ext_iff_of_nodup h.sound.distinct hd.ordered.nodup_names).2 fun name => ?_
  have hlookup : name ∈ d.index.names.map Prod.fst ↔ d.index.named? name ≠ none := by
    constructor
    · intro hname
      obtain ⟨⟨other, place⟩, hentry, rfl⟩ := List.mem_map.1 hname
      have hplace := (lookup_eq_some_iff h.sound.distinct).2 hentry
      obtain ⟨node, hnode, hnodeName⟩ := h.sound.named _ place hplace
      rw [h.sound.named?_iff.2 ⟨hnode, hnodeName⟩]
      exact Option.some_ne_none _
    · intro hnamed
      obtain ⟨⟨place, node⟩, hfound⟩ := Option.ne_none_iff_exists'.1 hnamed
      exact List.mem_map.2 ⟨_, (lookup_eq_some_iff h.sound.distinct).1
        (Index.named?_eq_some.1 hfound).1, rfl⟩
  rw [hlookup, Ne, h.named?_eq_none_iff hd, List.mem_map, ← Ne, Option.ne_none_iff_exists']
  simp only [find?_eq_some_iff hd.ordered]

/-- An identifier has the position of the slot that holds it. -/
theorem Tabled.position {file : FileId} {position : Position}
    (hposition : d.index.files.lookup file = some position) :
    ∃ node, d.index.node? position.place = some node ∧ node.fileAt? position.slot = some file ∧
      ∃ set ∈ d.catalog.sets, set.name = node.name ∧ ∃ c ∈ set.cycles, c.file = file := by
  obtain ⟨node, hnode, hslot⟩ := Index.fileAt?_eq_some.1 ((h.sound.filed file position).1 hposition)
  obtain ⟨set, hset, hname, hfile⟩ := (h.mem_files_iff hd).1
    ⟨position, node, h.sound.found?_iff.2 ⟨hnode, hslot⟩, rfl⟩
  exact ⟨node, hnode, hslot, set, hset, hname, List.mem_map.1 hfile⟩

/-- A name has the place of the node of its file set. -/
theorem Tabled.place {name : SetName} {place : Nat}
    (hplace : d.index.names.lookup name = some place) :
    ∃ node, d.index.node? place = some node ∧ node.name = name ∧ node.removed = false ∧
      ∃ set ∈ d.catalog.sets, set.name = name ∧ set.cycles ≠ [] ∧
        node.files = set.cycles.map FileCycle.file := by
  obtain ⟨node, hnode, rfl⟩ := h.sound.named name place hplace
  have hfiles := h.sound.filesOf_name hnode
  obtain ⟨-, hremoved, hnonempty⟩ := h.sound.node place node hnode
  rw [h.files] at hfiles
  cases hfind : d.catalog.find? node.name with
  | none =>
      rw [hd.filesOf_eq_nil.2 hfind] at hfiles
      exact absurd hfiles.symm hnonempty
  | some set =>
      obtain ⟨hset, hname⟩ := (find?_eq_some_iff hd.ordered).1 hfind
      rw [← hname, filesOf_of_mem hd.ordered hset] at hfiles
      exact ⟨node, hnode, rfl, hremoved, set, hset, hname, hd.nonempty set hset, hfiles.symm⟩

end Tables

/-! ### Identifiers -/

/-- A created cycle has the identifier after the last one, and is found by it. -/
theorem created_of_handle (hd : d.catalog.Indexed) {call : Call} {r : Request} {file : FileId}
    (hr : r.created ≠ none) (hreply : (d.handle call r).1 = .ok (.file file)) :
    file = ⟨d.catalog.lastFile + 1⟩ ∧ (d.handle call r).2.catalog.cycle? file ≠ none := by
  obtain ⟨spec, hspec⟩ := Option.ne_none_iff_exists'.1 hr
  obtain ⟨creation, change, -, -, hcreate, hanswer, hcatalog⟩ := create_of_created hspec hreply
  obtain ⟨hlast, hmoved, hfiles⟩ := moved_create hd hcreate
  have hindexed : (d.handle call r).2.catalog.Indexed :=
    (handle_induction (P := fun _ => True) (fun _ _ _ _ _ => trivial) hd trivial).1
  rw [hcatalog] at hindexed ⊢
  have hin : file ∈ change.catalog.filesOf creation.name := by
    rw [hfiles, hmoved, ← hlast, hanswer]
    unfold Index.moved
    dsimp only
    rw [if_pos rfl]
    exact List.mem_append_right _ (List.mem_singleton_self _)
  obtain ⟨set, hset, -, hfile⟩ := (mem_filesOf hindexed.ordered).1 hin
  obtain ⟨cycle, hcycle, rfl⟩ := List.mem_map.1 hfile
  rw [cycle?_of_mem hindexed hset hcycle]
  exact ⟨hanswer.symm.trans hlast, Option.some_ne_none _⟩

/-- No identifier is given out a second time, whatever becomes of the directory. -/
theorem Reached.ahead {e : Directory} (hd : d.catalog.Indexed) (h : Reached (· = d) e) :
    e.catalog.Indexed ∧ d.catalog.lastFile ≤ e.catalog.lastFile ∧
      ∀ file, d.catalog.Gone file → e.catalog.Gone file := by
  refine h.performed_induction (P := fun e => d.catalog.lastFile ≤ e.catalog.lastFile ∧
    ∀ file, d.catalog.Gone file → e.catalog.Gone file) ?_ ?_
  · rintro e rfl
    exact ⟨hd, Nat.le_refl _, fun _ hgone => hgone⟩
  · rintro call r e e' he ⟨hle, hgone⟩ hperformed
    exact ⟨Nat.le_trans hle (hperformed.lastFile_le he), fun file hfile =>
      hperformed.gone he (hgone file hfile)⟩

/-- An identifier that finds a cycle is not above the last one given out. -/
theorem Tabled.number_le_lastFile (h : d.Tabled) (hd : d.catalog.Indexed) {known : FileId}
    (hknown : d.locate? known ≠ none) : known.number ≤ d.catalog.lastFile := by
  rw [h.locate?_eq hd] at hknown
  obtain ⟨found, hfound⟩ := Option.ne_none_iff_exists'.1 hknown
  exact given_of_cycle? hd (Option.map_eq_some_iff.2 ⟨found, hfound, rfl⟩)

/-- The list of the file sets is that of the catalog. -/
theorem Tabled.listSets_eq (h : d.Tabled) (hd : d.catalog.Indexed) {call : Call}
    (htime : call.expired 0 = false) : d.listSets call = .ok (d.catalog.sets.map FileSet.info) := by
  have hcheck : call.check .listSets 0 = .ok () := by simp [Call.check, htime]
  unfold listSets
  rw [hcheck, h.listed_eq hd]
  rfl

section Later

variable {e : Directory} {known : FileId} (h : Reached (Made config) d) (he : Reached (· = d) e)
  (hknown : d.locate? known ≠ none)

include h

theorem Reached.tabled_of_made : d.catalog.Indexed ∧ d.Tabled :=
  (h.mono fun _ hmade => Or.inl hmade).tabled

include he hknown

/-- What is created later has a higher identifier. -/
theorem Reached.fresh {call : Call} {r : Request} {file : FileId} (hr : r.created ≠ none)
    (hreply : (e.handle call r).1 = .ok (.file file)) :
    known.number < file.number ∧ (e.handle call r).2.locate? file ≠ none := by
  obtain ⟨hd, htabled⟩ := h.tabled_of_made
  obtain ⟨hindexed, hle, -⟩ := he.ahead hd
  obtain ⟨hindexed', htabled'⟩ := ((h.trans he).handle call r).tabled_of_made
  obtain ⟨rfl, hfound⟩ := created_of_handle hindexed hr hreply
  constructor
  · exact Nat.lt_succ_of_le (Nat.le_trans (htabled.number_le_lastFile hd hknown) hle)
  · rw [htabled'.locate?_eq hindexed']
    exact fun hnone => hfound (Option.map_eq_none_iff.2 hnone)

/-- An identifier that finds nothing any more finds nothing later. -/
theorem Reached.gone (hnone : e.locate? known = none) {e' : Directory} (he' : Reached (· = e) e') :
    e'.locate? known = none := by
  obtain ⟨hd, htabled⟩ := h.tabled_of_made
  obtain ⟨hindexed, hle, -⟩ := he.ahead hd
  obtain ⟨hindexed', -, hlater⟩ := he'.ahead hindexed
  rw [(h.trans he).tabled_of_made.2.locate?_eq hindexed] at hnone
  have hgone : e.catalog.Gone known :=
    ⟨Nat.le_trans (htabled.number_le_lastFile hd hknown) hle, Option.map_eq_none_iff.2 hnone⟩
  rw [((h.trans he).trans he').tabled_of_made.2.locate?_eq hindexed']
  exact Option.map_eq_none_iff.1 (hlater known hgone).absent

end Later

/-- **The index and the identifiers are in order in every state** of a directory that was made empty,
in any pattern of failing attempts at writing. -/
theorem consistent_of_reached (h : Reached (Made config) d) : d.Consistent := by
  obtain ⟨hd, htabled⟩ := h.tabled_of_made
  exact
    { files := htabled.perm_files hd
      positions := fun _ _ => htabled.position hd
      names := htabled.perm_names hd
      places := fun _ _ => htabled.place hd
      cycles := fun set hset c hc => ⟨hd.named set hset c hc, h.uniform set hset c hc⟩
      sets := ⟨List.pairwise_map.2 hd.ordered, fun _ => htabled.listSets_eq hd⟩
      fresh := fun _ hknown _ he _ _ _ => h.fresh he hknown
      gone := fun _ hknown _ he hnone _ => h.gone he hknown hnone }

/-- So it is after a file set has gone and one of its name has been created again: the place of the
node that has gone is not used again. -/
theorem consistent_of_reached_again :
    (doomed.after [
        (⟨⟨1, "RUN1", "USER"⟩, 8, none⟩, .releaseAll),
        (⟨⟨1, "RUN2", "USER"⟩, 9, none⟩, .release ⟨1⟩),
        (⟨⟨1, "RUN2", "USER"⟩, 10, none⟩, .createDisk ⟨"Q", "D", .absolute 1, .track, 3, 10⟩)]).index =
      { nodes := [none, some { name := ⟨"Q", "D"⟩, slots := [some ⟨2⟩] }]
        names := [(⟨"Q", "D"⟩, 1)]
        files := [(⟨2⟩, ⟨1, 0⟩)] } ∧
      (doomed.after [
        (⟨⟨1, "RUN1", "USER"⟩, 8, none⟩, .releaseAll),
        (⟨⟨1, "RUN2", "USER"⟩, 9, none⟩, .release ⟨1⟩),
        (⟨⟨1, "RUN2", "USER"⟩, 10, none⟩,
          .createDisk ⟨"Q", "D", .absolute 1, .track, 3, 10⟩)]).Consistent :=
  ⟨by decide +kernel, consistent_of_reached (reached_after (reached_doomed (Or.inl rfl)) _)⟩

end Directory

end FileDirectory
