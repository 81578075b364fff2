/-
**What a change does to the cycles of a name.**

A change says what becomes of the index: that a cycle was entered under a name, that one was dropped,
or neither.  That is what becomes of the cycles of every name in the catalog.

Main definitions:

* `FileDirectory.Catalog.filesOf` — the cycles of a name, in the order of their creation.

Main results:

* `FileDirectory.Catalog.filesOf_put` — the cycles of every name after a set was put in its place;
* `FileDirectory.Catalog.Asked.moved` — what a change says becomes of the cycles of every name.
-/

import FileDirectory.Proofs.Catalog.Asked
import FileDirectory.Proofs.Index

set_option autoImplicit false

namespace FileDirectory

namespace Catalog

variable {c : Catalog} {set : FileSet} {cycle : FileCycle} {name : SetName} {file : FileId}

/-! ### The cycles of a name -/

/-- The identifiers of the cycles of a name. -/
def filesOf (c : Catalog) (name : SetName) : List FileId :=
  ((c.find? name).map FileSet.files).getD []

theorem filesOf_of_mem (h : Ordered c.sets) (hset : set ∈ c.sets) :
    c.filesOf set.name = set.files := by
  unfold filesOf
  rw [(find?_eq_some_iff h).2 ⟨hset, rfl⟩]
  rfl

theorem mem_filesOf (h : Ordered c.sets) :
    file ∈ c.filesOf name ↔ ∃ set ∈ c.sets, set.name = name ∧ file ∈ set.files := by
  constructor
  · intro hfile
    unfold filesOf at hfile
    cases hfind : c.find? name with
    | none =>
        rw [hfind] at hfile
        cases hfile
    | some set =>
        rw [hfind] at hfile
        obtain ⟨hset, hname⟩ := (find?_eq_some_iff h).1 hfind
        exact ⟨set, hset, hname, hfile⟩
  · rintro ⟨set, hset, rfl, hfile⟩
    rwa [filesOf_of_mem h hset]

/-- Nothing is under a name exactly if there is no file set of it. -/
theorem Indexed.filesOf_eq_nil (h : c.Indexed) : c.filesOf name = [] ↔ c.find? name = none := by
  unfold filesOf
  cases hfind : c.find? name with
  | none => simp
  | some set =>
      have hne := h.nonempty set ((find?_eq_some_iff h.ordered).1 hfind).1
      simpa [FileSet.files] using hne

/-- The identifiers of all cycles, by file set, have no duplicates. -/
theorem Indexed.nodup_files (h : c.Indexed) : (c.sets.flatMap FileSet.files).Nodup := by
  rw [List.nodup_flatMap]
  refine ⟨h.nodup, h.ordered.imp_of_mem ?_⟩
  intro s t hs ht hlt file hin hin'
  exact SetName.ne_of_lt hlt (congrArg FileSet.name (h.apart s hs t ht file hin hin'))

/-- The cycles of a name are those of all sets that have the name. -/
theorem flatMap_filter_name (h : Ordered c.sets) (name : SetName) :
    (c.sets.filter fun set => set.name = name).flatMap FileSet.files = c.filesOf name := by
  obtain ⟨config, sets, space, last⟩ := c
  unfold filesOf Catalog.find?
  dsimp only at h ⊢
  induction sets with
  | nil => rfl
  | cons set sets ih =>
      by_cases hname : set.name = name
      · have hnone : sets.filter (fun other => other.name = name) = [] := by
          refine List.filter_eq_nil_iff.2 fun other hother heq => ?_
          exact SetName.ne_of_lt (h.head_lt hother) (hname.trans (of_decide_eq_true heq).symm)
        rw [List.filter_cons_of_pos (by simpa using hname), hnone,
          List.find?_cons_of_pos (by simpa using hname)]
        exact List.append_nil _
      · rw [List.filter_cons_of_neg (by simpa using hname),
          List.find?_cons_of_neg (by simpa using hname)]
        exact ih h.tail

/-- The cycles of every name after a set was put in its place. -/
theorem filesOf_put (h : Ordered c.sets) (set : FileSet) (name : SetName) :
    (c.put set).filesOf name = if name = set.name then set.files else c.filesOf name := by
  unfold filesOf
  rw [find?_put h]
  split
  · split
    · rename_i hempty
      simp [FileSet.files, hempty]
    · rfl
  · rfl

/-! ### Changes -/

/-- The cycles of every name after a set was changed that keeps its cycles. -/
theorem Indexed.filesOf_change (h : c.Indexed) (space : FreeSpace) {after : FileSet}
    (hset : set ∈ c.sets) (hname : after.name = set.name) (hfiles : after.files = set.files) :
    ({ c with space := space }.put after).filesOf = c.filesOf := by
  funext name
  rw [filesOf_put (c := { c with space := space }) h.ordered, hname, hfiles]
  split
  · rename_i heq
    rw [heq, filesOf_of_mem h.ordered hset]
  · rfl

/-- The cycles of every name after a cycle was dropped. -/
theorem Indexed.filesOf_drop (h : c.Indexed) (hset : set ∈ c.sets) (hcycle : cycle ∈ set.cycles) :
    (c.drop set cycle).filesOf = Index.moved (some (.dropped cycle.file)) c.filesOf := by
  funext name
  unfold drop
  rw [filesOf_put (c := { c with space := releaseAll c.space cycle.item.table.takeAll.1 })
    h.ordered, FileSet.name_refresh, FileSet.name_erase, FileSet.files_refresh, FileSet.files_erase]
  unfold Index.moved
  dsimp only
  split
  · rename_i heq
    rw [heq, filesOf_of_mem h.ordered hset]
  · rename_i hne
    -- the cycle is in no set of another name
    refine (List.filter_eq_self.2 fun f hf => decide_eq_true ?_).symm
    rintro rfl
    obtain ⟨other, hother, rfl, hin⟩ := (mem_filesOf h.ordered).1 hf
    exact hne (h.apart other hother set hset _ hin (List.mem_map_of_mem hcycle) ▸ rfl)

/-- The cycles of every name after a cycle was created. -/
theorem moved_create {call : Call} {creation : Creation} {change : Change FileId} (hc : c.Indexed)
    (h : c.create call creation = .ok change) :
    change.answer = ⟨c.lastFile + 1⟩ ∧
      change.moved = some (.entered creation.name ⟨c.lastFile + 1⟩) ∧
      change.catalog.filesOf = Index.moved change.moved c.filesOf := by
  obtain ⟨set, number, newest, regions, space, hset, -, -, -, rfl⟩ := create_eq_ok h
  have hname := setFor_eq_ok hset
  have hold : c.filesOf set.name = set.files := by
    rcases setFor_cases hset with hin | ⟨rfl, hnone⟩
    · exact filesOf_of_mem hc.ordered hin
    · exact hc.filesOf_eq_nil.2 hnone
  refine ⟨rfl, rfl, funext fun other => ?_⟩
  have hput := filesOf_put (c := { c with space := space, lastFile := c.lastFile + 1 }) hc.ordered
    (FileSet.added set number newest
      (creation.fileCycle set.lead number ⟨c.lastFile + 1⟩ call regions)) other
  refine hput.trans ?_
  rw [FileSet.name_added]
  unfold enter Index.moved
  dsimp only
  rw [← hname]
  split
  · rename_i heq
    rw [heq, hold]
    simp [FileSet.files, Creation.fileCycle, FileCycle.assign]
  · rfl

/-- What a creation enters has an identifier that was not given out before. -/
theorem entered_create {call : Call} {creation : Creation} {change : Change FileId} (hc : c.Indexed)
    (h : c.create call creation = .ok change) :
    change.catalog.filesOf = Index.moved change.moved c.filesOf ∧
      ∀ name file, change.moved = some (.entered name file) → file = ⟨c.lastFile + 1⟩ := by
  obtain ⟨-, hmoved, hfiles⟩ := moved_create hc h
  refine ⟨hfiles, fun name file heq => ?_⟩
  rw [hmoved] at heq
  cases heq
  rfl

/-- Releasing a share of a cycle drops the cycle or keeps the cycles of every name. -/
theorem moved_release {call : Call} {share : Share} {change : Change Unit} (hc : c.Indexed)
    (h : c.release call file share = .ok change) :
    change.catalog.filesOf = Index.moved change.moved c.filesOf := by
  obtain ⟨set, hset, cycle, hcycle, rfl, -, rfl⟩ := release_eq_ok h
  have hfiles : ∀ after : FileCycle, after.file = cycle.file →
      (set.modify cycle.file fun _ => after).files = set.files := by
    intro after hfile
    rw [← hfile, FileSet.files_modify]
  dsimp only
  obtain ⟨hgone, heq⟩ | ⟨⟨hstate, -⟩, heq⟩ | ⟨⟨hstays, -⟩, heq⟩ :=
    settle_cases c call set (released cycle call share)
  · have hdrop : c.drop set (released cycle call share) = c.drop set cycle := rfl
    have hfile : (released cycle call share).file = cycle.file := rfl
    rw [heq, hdrop, releaseMove, if_pos hgone, hfile]
    exact hc.filesOf_drop hset hcycle
  · have hstays : ¬((released cycle call share).item.state = .dropping ∧
        (released cycle call share).item.assigned = 0) := by simp [hstate]
    rw [heq, releaseMove, if_neg hstays]
    exact hc.filesOf_change c.space hset rfl
      (hfiles (cataloged (released cycle call share) call.now) rfl)
  · rw [heq, releaseMove, if_neg hstays]
    exact hc.filesOf_change c.space hset rfl (hfiles (released cycle call share) rfl)

variable {call : Call} {r : Request} {α : Type} {change : Change α}

/-- **What a change says becomes of the cycles of every name**, and a cycle that it enters has an
identifier that was not given out before. -/
theorem Asked.moved (h : Asked call c r change) (hc : c.Indexed) :
    change.catalog.filesOf = Index.moved change.moved c.filesOf ∧
      ∀ name file, change.moved = some (.entered name file) → file = ⟨c.lastFile + 1⟩ := by
  have hchange : ∀ {set after : FileSet} {space : FreeSpace}, set ∈ c.sets →
      after.name = set.name → after.files = set.files →
      ({ c with space := space }.put after).filesOf = Index.moved none c.filesOf :=
    fun hset hname hfiles => hc.filesOf_change _ hset hname hfiles
  have hmodify : ∀ {set : FileSet} (after : FileCycle),
      (set.modify after.file fun _ => after).files = set.files := fun _ => FileSet.files_modify _
  cases h with
  | createTape h =>
      obtain ⟨creation, -, -, -, -, -, -, hcreate⟩ := createTape_eq_ok h
      exact entered_create hc hcreate
  | createDisk h =>
      obtain ⟨creation, -, -, -, -, -, -, hcreate⟩ := createDisk_eq_ok h
      exact entered_create hc hcreate
  | assign h =>
      obtain ⟨set, hset, cycle, hcycle, -, -, -, rfl⟩ := assign_eq_ok h
      refine ⟨hchange hset rfl ?_, nofun⟩
      rw [modify_eq (hc.nodup set hset) hcycle]
      exact hmodify (cycle.assign call.client call.now)
  | catalog h =>
      obtain ⟨set, hset, cycle, hcycle, rfl, -, -, rfl⟩ := catalog_eq_ok h
      exact ⟨hchange hset rfl (hmodify (cataloged cycle call.now)), nofun⟩
  | abort h =>
      obtain ⟨set, hset, cycle, hcycle, rfl, -, -, rfl⟩ := abort_eq_ok h
      exact ⟨hc.filesOf_drop hset hcycle, nofun⟩
  | delete h =>
      obtain ⟨set, hset, cycle, hcycle, -, -, -, -, rfl⟩ := delete_eq_ok h
      by_cases hheld : cycle.item.assigned = 0
      · simp only [if_pos hheld]
        exact ⟨hc.filesOf_drop hset hcycle, nofun⟩
      · simp only [if_neg hheld]
        exact ⟨hchange hset rfl
          (hmodify { cycle with item := cycle.item.withState .dropping }), nofun⟩
  | release hr h =>
      refine ⟨moved_release hc h, ?_⟩
      obtain ⟨set, hset, cycle, hcycle, rfl, -, rfl⟩ := release_eq_ok h
      intro name file heq
      unfold releaseMove at heq
      dsimp only at heq
      split at heq <;> cases heq
  | allocateTracks h =>
      obtain ⟨set, hset, cycle, hcycle, rfl, -, space, table, -, -, -, rfl⟩ :=
        allocateTracks_eq_ok h
      exact ⟨hchange hset rfl (hmodify (grown cycle table _ call.now)), nofun⟩
  | markWritten h =>
      obtain ⟨set, hset, cycle, hcycle, rfl, -, region, -, -, rfl⟩ := markWritten_eq_ok h
      exact ⟨hchange hset rfl
        (hmodify { cycle with item := writtenItem cycle.item region.limit call.now }), nofun⟩
  | setGuard h =>
      obtain ⟨set, hset, -, -, rfl⟩ := setGuard_eq_ok h
      exact ⟨hchange hset rfl (files_guardedSet set _), nofun⟩

end Catalog

end FileDirectory
