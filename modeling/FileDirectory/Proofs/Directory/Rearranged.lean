/-
**Recovery does not depend on where the records are.**

Every record repeats the names that it belongs to, so that it can be attributed by itself.  Two media
that hold the same records, in whatever sectors and with however many free sectors between them, are
therefore recovered alike: both fail, or both give the same directory, down to the identifiers of the
cycles.

Main definitions:

* `FileDirectory.Recovery.Rearranged` — the sectors of two media are the same but for their order and
  free sectors.

Main results:

* `FileDirectory.Recovery.Rearranged.recover` — rearranged media are recovered to the same
  catalog;
* `FileDirectory.Directory.recover_rearranged` — so they are to the same directory, or both fail with
  an error of the medium.
-/

import FileDirectory.Proofs.Directory.Admitted

set_option autoImplicit false

namespace FileDirectory

open Record

namespace Recovery

/-- The sectors that are not free are the same, in whatever order and whatever free sectors there
are. -/
def Rearranged (contents contents' : List Sector) : Prop :=
  (contents.filter fun s => s.code ≠ 0).Perm (contents'.filter fun s => s.code ≠ 0)

namespace Rearranged

variable {contents contents' : List Sector}

theorem symm (h : Rearranged contents contents') : Rearranged contents' contents := List.Perm.symm h

/-- The sectors may stand in any order. -/
theorem of_perm (h : contents.Perm contents') : Rearranged contents contents' := h.filter _

/-- There may be any number of free sectors. -/
theorem free_cons {s : Sector} (hfree : s.code = 0) (h : Rearranged contents contents') :
    Rearranged (s :: contents) contents' := by
  unfold Rearranged
  rw [List.filter_cons_of_neg (by simp [hfree])]
  exact h

/-- What is picked from the sectors, and never from a free one, is picked alike. -/
theorem filterMap {α : Type} (h : Rearranged contents contents') (pick : Sector → Option α)
    (hfree : ∀ s : Sector, s.code = 0 → pick s = none) :
    (contents.filterMap pick).Perm (contents'.filterMap pick) := by
  have hskip : ∀ l : List Sector, (l.filter fun s => s.code ≠ 0).filterMap pick =
      l.filterMap pick := by
    intro l
    rw [List.filterMap_filter]
    refine List.filterMap_congr ?_
    intro s _
    by_cases hs : s.code = 0 <;> simp [hs, hfree]
  rw [← hskip contents, ← hskip contents']
  exact List.Perm.filterMap pick h

theorem decodes (h : Rearranged contents contents') (hdecodes : ∀ s ∈ contents, s.Decodes) :
    ∀ s ∈ contents', s.Decodes := by
  intro s hs
  by_cases hfree : s.code = 0
  · exact Sector.exists_ofSector_iff.1 ⟨none, Sector.ofSector_eq_ok.2 (.free hfree)⟩
  · have hin : s ∈ contents'.filter fun s => s.code ≠ 0 :=
      List.mem_filter.2 ⟨hs, decide_eq_true hfree⟩
    exact hdecodes s (List.mem_filter.1 (h.mem_iff.2 hin)).1

variable {device device' : Device}

/-- **Rearranged media are recovered to the same catalog.** -/
theorem recover (config : Configuration)
    (h : Rearranged device.medium.contents device'.medium.contents)
    (hhealthy : device.Healthy) (hhealthy' : device'.Healthy)
    (hreads : ∀ sector < device.sectorCount, device.failsRead sector = false)
    (hreads' : ∀ sector < device'.sectorCount, device'.failsRead sector = false) {d : Directory}
    (hd : (Directory.recover config device).1 = .ok d) :
    ∃ d', (Directory.recover config device').1 = .ok d' ∧ d'.catalog = d.catalog := by
  obtain ⟨hdecodes, hcoherent, hrestart⟩ :=
    (recover_iff_ledger config hhealthy hreads).1 ⟨d, hd, rfl⟩
  have htags := h.filterMap Sector.tag? fun s hfree => by simp [Sector.tag?, hfree]
  rw [← tags_ledger hreads hdecodes, ← tags_ledger hreads' (h.decodes hdecodes)] at htags
  have hcoherent' := (coherent_congr htags).1 hcoherent
  have hrecords := h.filterMap Sector.record? fun s hfree => by
    rw [Sector.record?, Sector.ofSector_eq_ok.2 (.free hfree)]
    rfl
  have hremains : remains (ledger device) = remains (ledger device') := by
    refine remains_congr hcoherent.distinct hcoherent'.distinct ?_
    intro r
    rw [exists_mem_ledger_iff hreads, exists_mem_ledger_iff hreads', ← List.mem_filterMap,
      ← List.mem_filterMap, hrecords.mem_iff]
  exact (recover_iff_ledger config hhealthy' hreads').2
    ⟨h.decodes hdecodes, hcoherent', hremains ▸ hrestart⟩

end Rearranged

end Recovery

namespace Directory

open Recovery

/-- The lead item of a set of disk files. -/
def diskLead : LeadItem where
  name := ⟨"Q", "D"⟩
  projectId := "USER"
  fileType := .massStorage
  maxRange := 3

/-- **Recovery does not depend on where the records are.**  Rearranged media are recovered to
directories that have everything in common but their sectors, or both fail with an error of the
medium. -/
theorem recover_rearranged (config : Configuration) {device device' : Device}
    (h : Rearranged device.medium.contents device'.medium.contents)
    (hhealthy : device.Healthy) (hhealthy' : device'.Healthy)
    (hreads : ∀ sector < device.sectorCount, device.failsRead sector = false)
    (hreads' : ∀ sector < device'.sectorCount, device'.failsRead sector = false) :
    (∃ d d', (recover config device).1 = .ok d ∧ (recover config device').1 = .ok d' ∧
      d'.catalog = d.catalog ∧ d'.roster = d.roster ∧ ∀ c, d'.shown c = d.shown c) ∨
    ∃ f f', (recover config device).1 = .error f ∧ (recover config device').1 = .error f' ∧
      f.kind = .mediumIo ∧ f'.kind = .mediumIo := by
  cases hd : (recover config device).1 with
  | ok d =>
      obtain ⟨d', hd', hcatalog⟩ := h.recover config hhealthy hhealthy' hreads hreads' hd
      have hpair : recover config device = (.ok d, (recover config device).2) := Prod.ext hd rfl
      have hpair' : recover config device' = (.ok d', (recover config device').2) :=
        Prod.ext hd' rfl
      refine Or.inl ⟨d, d', rfl, hd', hcatalog, ?_, ?_⟩
      · rw [roster_recover hpair, roster_recover hpair']
      · intro c
        rw [shown_recover hpair, shown_recover hpair']
  | error f =>
      cases hd' : (recover config device').1 with
      | ok d' =>
          obtain ⟨d, hok, -⟩ := h.symm.recover config hhealthy' hhealthy hreads' hreads hd'
          rw [hd] at hok
          cases hok
      | error f' =>
          exact Or.inr ⟨f, f', rfl, rfl, kind_of_recover_error hd, kind_of_recover_error hd'⟩

/-- The records of a file set with one disk file, the eight extents of which take two allocation
records. -/
def scattered : List Sector :=
  let item : MainItem := { MainItem.ofLead diskLead 1 .live with
    table := ⟨(List.range 8).map fun i => ⟨2 * i, 3 * i, 1⟩⟩ }
  diskLead.record 1 1 :: item.records

theorem claimedIn_scattered : claimedIn scattered = (List.range 8).map fun i => 3 * i := by
  have hlive : scattered.filter Sector.live = [scattered[1]!] := by decide +kernel
  rw [claimedIn, hlive, List.flatMap_singleton, tableIn, extentsIn, allocationsIn,
    List.mergeSort_of_pairwise (by decide +kernel)]
  decide +kernel

theorem admissible_scattered : Admissible {} scattered := by
  have htags : scattered.filterMap Sector.tag? =
      [.lead ⟨"Q", "D"⟩, .main ⟨⟨"Q", "D"⟩, 1⟩, .backup ⟨⟨"Q", "D"⟩, 1⟩,
        .allocation ⟨⟨"Q", "D"⟩, 1⟩ 0, .allocation ⟨⟨"Q", "D"⟩, 1⟩ 1] := by decide +kernel
  refine admissible_of_tags (fun _ => Sector.decodes_of_mem_cons_records) htags (by decide) (by simp)
    (by grind) ?_ ?_ <;>
  · rw [claimedIn_scattered]
    decide

/-- The file is recovered alike from its records in the reverse order, behind a free sector. -/
theorem recover_rearranged_scattered :
    ∃ device device' : Device, device.medium.contents = scattered ∧
      device'.medium.contents = Sector.zero :: scattered.reverse ∧
      ∃ d d', (recover {} device).1 = .ok d ∧ (recover {} device').1 = .ok d' ∧
        (d'.catalog = d.catalog ∧ d'.roster = d.roster ∧ ∀ c, d'.shown c = d.shown c) ∧
        ∃ set ∈ d.catalog.sets, ∃ c ∈ set.cycles, c.item.key = ⟨⟨"Q", "D"⟩, 1⟩ := by
  have hfree : Sector.zero.code = 0 := by decide +kernel
  obtain ⟨device, hhealthy, hreads, hcontents⟩ :=
    Device.exists_contents (l := scattered) (by decide +kernel)
  obtain ⟨device', hhealthy', hreads', hcontents'⟩ :=
    Device.exists_contents (l := Sector.zero :: scattered.reverse) (by decide +kernel)
  obtain ⟨recovered, hrecovered⟩ := (hcontents ▸ admissible_scattered).recover hhealthy
    fun _ _ => hreads _
  have hrearranged : Rearranged device.medium.contents device'.medium.contents := by
    rw [hcontents, hcontents']
    exact (Rearranged.free_cons hfree (.of_perm scattered.reverse_perm)).symm
  refine ⟨device, device', hcontents, hcontents', ?_⟩
  rcases recover_rearranged {} hrearranged hhealthy hhealthy' (fun _ _ => hreads _)
    fun _ _ => hreads' _ with ⟨d, d', hd, hd', hsame⟩ | ⟨f, f', hf, -⟩
  · refine ⟨d, d', hd, hd', hsame, (exists_recovered_iff (Prod.ext hd rfl)).2 ?_⟩
    rw [hcontents]
    decide +kernel
  · cases hrecovered.symm.trans hf

end Directory

end FileDirectory
