/-
**What recording a file set does to the others.**

Recording a file set anew, or its absence, leaves the sectors of the other sets to them, with what is
in them, and marks none of their cycles.  So what is on the medium of them stays there; what is
recorded itself is there afterwards if nothing went wrong, even where a cycle had been marked before.

Main results:

* `FileDirectory.Store.Keeps.spares`, `FileDirectory.Store.mem_suspect_record` — the sectors of other
  sets, and the cycles that are marked;
* `FileDirectory.Store.Keeps.recorded_record` — the cycles that are on the medium afterwards.
-/

import FileDirectory.Proofs.Store.Recorded

set_option autoImplicit false

namespace FileDirectory.Store

/-- Recording a file set anew, or its absence, leaves the sectors of sets of other names to them, with
what is in them. -/
theorem Keeps.spares {c c' : Catalog} {s : Store} (h : Keeps c s) (hc : c.Indexed) (hc' : c'.Indexed)
    {name other : SetName} (hne : other ≠ name) :
    (s.record name (c'.find? name)).1.placement other = s.placement other ∧
      ∀ sector ∈ (s.placement other).sectors,
        (s.record name (c'.find? name)).1.device.medium.read sector = s.device.medium.read sector := by
  obtain ⟨claimed, freed, writes, haccount⟩ := h.account hc hc' name
  obtain ⟨-, -, hothers, -⟩ := flush_account h.nodup_names h.nodup_owned h.inUse_of_owned haccount
  exact ⟨placement_record_of_ne s _ hne, fun sector hsector =>
    hothers sector (sectors_subset_others hne sector hsector)⟩

/-- **Only cycles of the set that is recorded are marked.** -/
theorem mem_suspect_record {s : Store} {name : SetName} {set? : Option FileSet} {file : FileId}
    (h : file ∈ (s.record name set?).1.suspect) :
    file ∈ s.suspect ∨ ∃ set ∈ set?, file ∈ set.files := by
  unfold record at h
  dsimp only at h
  rcases List.mem_append.1 h with hold | hnew
  · exact Or.inl hold
  · refine Or.inr ?_
    rcases List.mem_append.1 (List.mem_filter.1 hnew).1 with hunplaced | hdoubtful
    · exact (complaints_stage s name set?).1 file hunplaced
    · obtain ⟨set, hset, hfile⟩ := List.mem_flatMap.1 (List.mem_filter.1 hdoubtful).1
      exact ⟨set, Option.mem_toList.1 hset, hfile⟩

/-- A cycle of another set is shown as it was. -/
theorem shown_record_of_notMem {s : Store} {name : SetName} {set? : Option FileSet} {c : FileCycle}
    (h : ∀ set ∈ set?, c.file ∉ set.files) : (s.record name set?).1.shown c = s.shown c := by
  have hsame : (s.record name set?).1.suspect.contains c.file = s.suspect.contains c.file := by
    rw [Bool.eq_iff_iff, List.contains_iff_mem, List.contains_iff_mem]
    refine ⟨fun hin => ?_, fun hin => List.mem_append_left _ hin⟩
    rcases mem_suspect_record hin with hold | ⟨set, hset, hfile⟩
    · exact hold
    · exact absurd hfile (h set hset)
  unfold shown
  rw [hsame]

/-- **Recording the set of a name anew, or its absence**, leaves the cycles of other sets on the medium,
and puts its own there if nothing goes wrong. -/
theorem Keeps.recorded_record {c c' : Catalog} {s : Store} (h : Keeps c s) (hc : c.Indexed)
    (hc' : c'.Indexed) {name : SetName} {set : FileSet} (hset : set ∈ c'.sets)
    (hself : set.name = name → (s.record name (c'.find? name)).2 = none)
    (hother : set.name ≠ name → ∀ d ∈ set.cycles, s.Recorded set d) :
    ∀ d ∈ set.cycles, (s.record name (c'.find? name)).1.Recorded set d := by
  intro d hd
  by_cases hname : set.name = name
  · subst hname
    have hfind : c'.find? set.name = some set :=
      (Catalog.find?_eq_some_iff hc'.ordered).2 ⟨hset, rfl⟩
    have hquiet := hself rfl
    rw [hfind] at hquiet ⊢
    obtain ⟨p, claimed, freed, writes, -, hentered⟩ := h.entered hc hc' hset
    exact hentered.recorded_of_quiet hd hquiet
  · obtain ⟨hplacement, hread⟩ := h.spares hc hc' hname
    refine (hother hname d hd).congr hplacement hread (shown_record_of_notMem ?_).symm
    intro other hfind hin
    obtain ⟨hmem, rfl⟩ := (Catalog.find?_eq_some_iff hc'.ordered).1 hfind
    exact hname (hc'.apart set hset other hmem d.file (List.mem_map_of_mem hd) hin ▸ rfl)

end FileDirectory.Store
