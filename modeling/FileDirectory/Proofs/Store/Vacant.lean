/-
**Sectors without an owner.**

A sector that no record is in is clear and may be taken into use.  Should the write that clears it
fail, it stays in use for good, so that no record is ever put where an old one may still be found.

Main definitions:

* `FileDirectory.Store.Vacated` — what the sectors without an owner hold, and why they are in use.

Main results:

* `FileDirectory.Store.Vacated.flush` — carrying staged writes out keeps this up;
* `FileDirectory.Store.Vacated.record` — so does recording a file set anew, or its absence.
-/

import FileDirectory.Proofs.Store.Recorded

set_option autoImplicit false

namespace FileDirectory.Store

/-- A write that failed is one of those that were attempted. -/
theorem write_mem_of_failure {device : Device} {ws : List Write} {f : WriteFailure}
    (h : f ∈ (write device ws).2) : f.write ∈ ws := by
  fun_induction write device ws with
  | case1 device => cases h
  | case2 device w ws after hw ih => exact List.mem_cons_of_mem _ (ih h)
  | case3 device w ws e after hw final failures heq ih =>
      rw [heq] at ih
      rcases List.mem_cons.1 h with rfl | h
      · exact List.mem_cons_self
      · exact List.mem_cons_of_mem _ (ih h)

/-- A sector that is not in use is clear, and one that is in use without an owner is one that a write
failed to clear. -/
structure Vacated (s : Store) (failures : List WriteFailure) : Prop where
  clear : ∀ sector : Nat, s.inUse[sector]? = some false →
    s.device.medium.read sector = .ok Sector.zero
  spoiled : ∀ sector : Nat, s.inUse[sector]? = some true → sector ∉ s.owned →
    ∃ f ∈ failures, f.write = { sector := sector, content := Sector.zero }

variable {s : Store} {failures : List WriteFailure} {name : SetName}

section Flush

variable {staging : Staging} {old claimed freed new : List Nat} {writes : List Write} {sector : Nat}

/-- A sector that is cleared is the sector of a staged write that clears it. -/
theorem clearing_mem (haccount : Staging.Account { inUse := s.inUse } old claimed freed writes staging
    new) (hin : sector ∈ freed) : (⟨sector, Sector.zero, none⟩ : Write) ∈ writes :=
  haccount.clears _ (List.mem_map.2 ⟨sector, hin, rfl⟩)

/-- A sector that is free and is not taken into use is not written to. -/
theorem notMem_writes_of_free (hinUse : ∀ sector ∈ old, s.inUse[sector]? = some true)
    (haccount : Staging.Account { inUse := s.inUse } old claimed freed writes staging new)
    (hfree : s.inUse[sector]? = some false) (hunclaimed : sector ∉ claimed) :
    sector ∉ writes.map Write.sector := by
  intro hin
  rcases List.mem_append.1 (haccount.perm.mem_iff.1 (haccount.subperm.subset hin)) with hold | hin
  · rw [hinUse sector hold] at hfree
    cases hfree
  · exact hunclaimed hin

/-- A sector that is free after staged writes were carried out is clear. -/
theorem Vacated.clear_flush (h : s.Vacated failures) (hwrites : (writes.map Write.sector).Nodup)
    (hinUse : ∀ sector ∈ old, s.inUse[sector]? = some true)
    (haccount : Staging.Account { inUse := s.inUse } old claimed freed writes staging new)
    (hfree : (s.flush staging).1.inUse[sector]? = some false) :
    (s.flush staging).1.device.medium.read sector = .ok Sector.zero := by
  have hstaged : staging.writes = writes := haccount.writes_eq
  rw [s.getElem?_inUse_flush haccount] at hfree
  split at hfree
  · -- it was cleared
    rename_i hcleared
    obtain ⟨hin, hok⟩ := hcleared.1
    refine read_write_of_mem (hstaged ▸ hwrites) (hstaged ▸ clearing_mem haccount hin) fun f hf heq => ?_
    exact hok f hf (congrArg Write.sector heq)
  · -- it was free before, and nothing was written to it
    split at hfree
    · cases hfree
    · rename_i hunclaimed
      have hunwritten := notMem_writes_of_free hinUse haccount hfree hunclaimed
      exact (read_write_of_notMem (hstaged ▸ hunwritten)).trans (h.clear sector hfree)

/-- A sector that is in use without an owner after staged writes were carried out is one that a write
failed to clear, then or before. -/
theorem Vacated.spoiled_flush (h : s.Vacated failures) (hwrites : (writes.map Write.sector).Nodup)
    (haccount : Staging.Account { inUse := s.inUse } old claimed freed writes staging new)
    (hused : (s.flush staging).1.inUse[sector]? = some true) (hvacant : sector ∉ new)
    (howned : sector ∈ s.owned → sector ∈ old) :
    ∃ f ∈ failures ++ (s.flush staging).2,
      f.write = { sector := sector, content := Sector.zero } := by
  have hstaged : staging.writes = writes := haccount.writes_eq
  have hafter : sector ∈ old ++ claimed → sector ∈ freed := fun hin =>
    (List.mem_append.1 (haccount.perm.mem_iff.2 hin)).resolve_left hvacant
  have hlt := (List.getElem?_eq_some_iff.1 hused).1
  rw [Store.flush, SectorMap.length_release] at hlt
  rw [s.getElem?_inUse_flush haccount] at hused
  split at hused
  · cases hused
  · rename_i hkept
    by_cases hin : sector ∈ freed
    · -- it was to be cleared, and that failed
      obtain ⟨f, hf, heq⟩ : ∃ f ∈ (s.flush staging).2, f.write.sector = sector := by
        by_contra hnone
        exact hkept ⟨⟨hin, fun f hf heq => hnone ⟨f, hf, heq⟩⟩, hlt⟩
      have hattempted : f.write ∈ writes := hstaged ▸ write_mem_of_failure hf
      exact ⟨f, List.mem_append_right _ hf,
        List.inj_on_of_nodup_map hwrites hattempted (clearing_mem haccount hin) heq⟩
    · -- it was in use without an owner before
      split at hused
      · rename_i hclaimed
        exact absurd (hafter (List.mem_append_right _ hclaimed)) hin
      · have hbefore : sector ∉ s.owned := fun howner =>
          hin (hafter (List.mem_append_left _ (howned howner)))
        obtain ⟨f, hf, heq⟩ := h.spoiled sector hused hbefore
        exact ⟨f, List.mem_append_left _ hf, heq⟩

end Flush

/-- **Carrying staged writes out keeps this up**, the writes that failed being added to those that
did before. -/
theorem Vacated.flush (h : s.Vacated failures) {p : Option Placement} {staging : Staging}
    {claimed freed : List Nat} {writes : List Write} (hnames : (s.placed.map Prod.fst).Nodup)
    (hnodup : s.owned.Nodup) (hinUse : ∀ sector ∈ s.owned, s.inUse[sector]? = some true)
    (haccount : Staging.Account { inUse := s.inUse } (s.placement name).sectors claimed freed writes
      staging (p.toList.flatMap Placement.sectors)) :
    ((s.place name p).flush staging).1.Vacated
      (failures ++ ((s.place name p).flush staging).2) := by
  have hsplit := perm_owned hnames name
  have hinUse' : ∀ sector ∈ (s.placement name).sectors ++ s.others name,
      s.inUse[sector]? = some true := fun sector hsector => hinUse sector (hsplit.mem_iff.2 hsector)
  have hwrites := nodup_writes_of_account (hsplit.nodup_iff.1 hnodup) hinUse' haccount
  refine ⟨fun sector hfree => ?_, fun sector hused hvacant => ?_⟩
  · exact h.clear_flush hwrites (fun other hin => hinUse' other (List.mem_append_left _ hin)) haccount
      hfree
  · have howned : ((s.place name p).flush staging).1.owned =
        p.toList.flatMap Placement.sectors ++ s.others name := owned_place s name p
    rw [howned, List.mem_append, not_or] at hvacant
    exact h.spoiled_flush hwrites haccount hused hvacant.1 fun howner =>
      (List.mem_append.1 (hsplit.mem_iff.1 howner)).resolve_right hvacant.2

/-- **Recording the set of a name anew, or its absence, keeps this up.** -/
theorem Vacated.record (h : s.Vacated failures) {c c' : Catalog} (hkeeps : Keeps c s)
    (hc : c.Indexed) (hc' : c'.Indexed) :
    (s.record name (c'.find? name)).1.Vacated
      (failures ++ (write s.device (s.stage name (c'.find? name)).2.writes).2) := by
  obtain ⟨claimed, freed, writes, haccount⟩ := hkeeps.account hc hc' name
  obtain ⟨hclear, hspoiled⟩ :=
    h.flush hkeeps.nodup_names hkeeps.nodup_owned hkeeps.inUse_of_owned haccount
  exact ⟨hclear, hspoiled⟩

end FileDirectory.Store
