/-
**An operation stays within its file set.**

Beside what it changes in the catalog, an operation takes sectors into use and frees others, writes
and marks cycles whose records did not reach the medium.  Whatever attempts at writing fail, none of
this touches a file set that the operation is not about: the set keeps its lead item, its cycles and
how they are shown, its sectors and what is in them.  Nobody but the caller gets more or less of any
cycle, and a cycle that goes takes no assignment of another one with it.

Main definitions:

* `FileDirectory.Directory.Confined` — what a request leaves alone.

Main results:

* `FileDirectory.Catalog.Turn.heldOf_eq` — whose assignments of a cycle an operation leaves alone;
* `FileDirectory.Directory.confined_of_reached` — every request but releasing everything is confined
  in every state of a directory on a medium.
-/

import FileDirectory.Proofs.Catalog.Life
import FileDirectory.Proofs.Catalog.Revised
import FileDirectory.Proofs.Directory.Alike
import FileDirectory.Proofs.Directory.Bookkeeping
import FileDirectory.Proofs.Directory.Recorded
import FileDirectory.Proofs.Store.Spared

set_option autoImplicit false

namespace FileDirectory

/-! ### Assignments -/

namespace Catalog

variable {call : Call} {r : Request} {file other : FileId} {before after : Option FileCycle}
  {notes : List Roster.Note}

/-- **An operation leaves a client's assignments of a cycle alone** unless the client is the caller,
and creates, assigns, aborts or releases it. -/
theorem Turn.heldOf_eq (h : Turn call r file before after notes) (hb : ∀ b ∈ before, b.Bookkept)
    {client : Client} (hcaller : client = call.client →
      r.creates = none ∧ r.isAssign = false ∧ r ≠ .abort file ∧ r.share file = none) :
    heldOf after client = heldOf before client := by
  cases h with
  | idle => rfl
  | create hr =>
      have hne : client ≠ call.client := by
        intro heq
        rw [(hcaller heq).1] at hr
        cases hr
      exact FileCycle.held_assign_of_ne _ hne call.now
  | assign hr =>
      have hne : client ≠ call.client := by
        intro heq
        rw [(hcaller heq).2.1] at hr
        cases hr
      exact FileCycle.held_assign_of_ne _ hne call.now
  | catalog => rfl
  | @abort cycle hr hstate hcreator =>
      -- nobody but its creator has a cycle that is being cataloged
      by_contra hheld
      have hclient := (hb cycle rfl).eq_creator hstate (Ne.symm hheld)
      rw [hcreator] at hclient
      exact (hcaller (Option.some.inj hclient).symm).2.2.1 hr
  | doom => rfl
  | @delete cycle _ _ hnobody =>
      have hle := (hb cycle rfl).held_le_assigned client
      rw [hnobody] at hle
      exact (Nat.le_zero.1 hle).symm
  | @release cycle share hr =>
      have hne : client ≠ call.client := by
        intro heq
        rw [(hcaller heq).2.2.2] at hr
        cases hr
      exact heldOf_settled_of_ne (hb cycle rfl).toTallied share hne
  | grow => rfl
  | write => rfl
  | guard => rfl

/-- Who releases a cycle, and not everything, names it. -/
theorem eq_release_of_share {share : Share} (h : r.share file = some share) (hr : r ≠ .releaseAll) :
    r = .release file := by
  cases r with
  | release other =>
      unfold Request.share at h
      dsimp only at h
      split at h
      · rename_i heq
        rw [heq]
      · cases h
  | releaseAll => exact absurd rfl hr
  | _ => cases h

/-- A cycle that goes when something else than everything is released is aborted, deleted or the one
that is released. -/
theorem Turn.cases_of_gone (h : Turn call r file before after notes) (hbefore : before ≠ none)
    (hafter : after = none) (hr : r ≠ .releaseAll) :
    r = .abort file ∨ r.isDelete = true ∨ r = .release file := by
  cases h with
  | idle => exact absurd hafter hbefore
  | abort hr => exact Or.inl hr
  | delete hr => exact Or.inr (Or.inl hr)
  | release hshare => exact Or.inr (Or.inr (eq_release_of_share hshare hr))
  | _ => cases hafter

end Catalog

namespace Directory

open Catalog

variable {call : Call} {r : Request} {d d' : Directory}

/-! ### What a request leaves alone -/

/-- What a request leaves alone that leads from one state of a directory on a medium to another. -/
structure Confined (call : Call) (r : Request) (d d' : Directory) : Prop where
  /-- Every set that it is not about keeps its lead item and its cycles. -/
  sets : ∀ set ∈ d.catalog.sets, ¬r.Concerns set → set ∈ d'.catalog.sets
  /-- They are shown as they were. -/
  shown : ∀ set ∈ d.catalog.sets, ¬r.Concerns set → ∀ c ∈ set.cycles, d'.shown c = d.shown c
  /-- It keeps its sectors, and they read as they did. -/
  sectors : ∃ s s', d.store = some s ∧ d'.store = some s' ∧
    ∀ set ∈ d.catalog.sets, ¬r.Concerns set →
      s'.placement set.name = s.placement set.name ∧
        ∀ sector ∈ (s.placement set.name).sectors,
          s'.device.medium.read sector = s.device.medium.read sector
  /-- Nobody but the caller has more or less of any cycle. -/
  held : ∀ file client, client ≠ call.client →
    heldOf (d'.catalog.cycle? file) client = heldOf (d.catalog.cycle? file) client
  /-- Where a cycle goes, nobody has more or less of any other one. -/
  dropped : ∀ file, d.catalog.cycle? file ≠ none → d'.catalog.cycle? file = none →
    ∀ other, other ≠ file → ∀ client,
      heldOf (d'.catalog.cycle? other) client = heldOf (d.catalog.cycle? other) client

/-- **One operation is confined.** -/
theorem Performed.confined (h : Performed call r d d') (hr : r ≠ .releaseAll)
    (hd : d.catalog.Indexed) (hbooks : d.Bookkept) {store : Store} (hstore : d.store = some store)
    (hkeeps : store.Keeps d.catalog) : Confined call r d d' := by
  have hbefore : ∀ file, ∀ b ∈ d.catalog.cycle? file, b.Bookkept := fun file b hb =>
    hbooks.of_cycle? hd hb
  have hturn := h.turn hd
  have hheld : ∀ file client, client ≠ call.client →
      heldOf (d'.catalog.cycle? file) client = heldOf (d.catalog.cycle? file) client := by
    intro file client hne
    obtain ⟨notes, hturn⟩ := hturn file
    exact hturn.heldOf_eq (hbefore file) fun heq => absurd heq hne
  have hdropped : ∀ file, d.catalog.cycle? file ≠ none → d'.catalog.cycle? file = none →
      ∀ other, other ≠ file → ∀ client,
        heldOf (d'.catalog.cycle? other) client = heldOf (d.catalog.cycle? other) client := by
    intro file hthere hgone other hne client
    obtain ⟨notes, hfile⟩ := hturn file
    obtain ⟨notes', hother⟩ := hturn other
    refine hother.heldOf_eq (hbefore other) fun _ => ?_
    rcases hfile.cases_of_gone hthere hgone hr with rfl | hdelete | rfl
    · exact ⟨rfl, rfl, fun heq => hne (Request.abort.inj heq).symm, rfl⟩
    · cases r with
      | delete => exact ⟨rfl, rfl, nofun, rfl⟩
      | _ => cases hdelete
    · exact ⟨rfl, rfl, nofun, if_neg fun heq => hne heq.symm⟩
  cases h with
  | refused =>
      exact ⟨fun _ hset _ => hset, fun _ _ _ _ _ => rfl,
        ⟨store, store, hstore, hstore, fun _ _ _ => ⟨rfl, fun _ _ => rfl⟩⟩, hheld, hdropped⟩
  | performed change hasked =>
      have hd' := (hasked.steps hd).indexed hd
      have hne : ∀ set ∈ d.catalog.sets, ¬r.Concerns set → set.name ≠ change.touched :=
        fun set hset hother htouched => hother (hasked.of_touched hd hset htouched.symm).1
      have hafter := store_perform_ok hstore change
      constructor
      case sets =>
        intro set hset hother
        rw [catalog_perform_ok]
        exact (hasked.mem_sets_iff hd (hne set hset hother)).2 hset
      case shown =>
        intro set hset hother c hc
        unfold Directory.shown
        rw [hafter, hstore]
        -- the set that is recorded has no cycle of this one
        refine Store.shown_record_of_notMem fun touched htouched hin => ?_
        obtain ⟨hmem, hname⟩ := (find?_eq_some_iff hd'.ordered).1 htouched
        have hsame := hd'.apart touched hmem set
          ((hasked.mem_sets_iff hd (hne set hset hother)).2 hset) c.file hin
          (List.mem_map_of_mem hc)
        exact hne set hset hother (hsame ▸ hname)
      case sectors =>
        exact ⟨store, _, hstore, hafter, fun set hset hother =>
          hkeeps.spares hd hd' (hne set hset hother)⟩
      case held => exact hheld
      case dropped => exact hdropped

/-- The sectors of the file sets are told apart in every state of a directory on a medium. -/
theorem Reached.kept {config : Configuration}
    (h : Reached (fun d => (∃ device, format config device = .ok d) ∨ Recovered config d) d) :
    ∃ store, d.store = some store ∧ store.Keeps d.catalog := by
  refine (h.performed_induction (P := fun d => ∃ store, d.store = some store ∧
    store.Keeps d.catalog) ?_ ?_).2
  · rintro d (⟨device, hformat⟩ | ⟨device, device', hrecover⟩)
    · obtain ⟨device', rfl, -⟩ := format_eq_ok hformat
      exact ⟨indexed_empty config, _, rfl, keeps_format config device'⟩
    · exact keeps_recover hrecover
  · rintro call r d d' hd ⟨store, hstore, hkeeps⟩ hperformed
    cases hperformed with
    | refused => exact ⟨store, hstore, hkeeps⟩
    | performed change hasked =>
        refine ⟨_, store_perform_ok hstore change, ?_⟩
        rw [catalog_perform_ok]
        exact (hasked.steps hd).keeps hd hkeeps

/-- **Every request but releasing everything stays within its file set** in every state of a directory
that was set up on a medium or recovered from one, in any pattern of failing attempts at writing. -/
theorem confined_of_reached {config : Configuration}
    (h : Reached (fun d => (∃ device, format config device = .ok d) ∨ Recovered config d) d)
    (call : Call) (hr : r ≠ .releaseAll) : Confined call r d (d.handle call r).2 := by
  obtain ⟨store, hstore, hkeeps⟩ := h.kept
  have hmade : Reached (fun d => Made config d ∨ Recovered config d) d :=
    h.mono fun d hd => hd.imp_left Or.inr
  obtain ⟨hsound, hbooks⟩ := hmade.books
  exact (performed_handle hr).confined hr hsound hbooks hstore hkeeps

/-- So it is where two files share a medium of four sectors, which has space for one. -/
theorem confined_of_reached_twoTapes :
    ∃ d, format {} { medium := .ofSectorCount 4 } = .ok d ∧
      (∃ set ∈ (d.after twoTapes).catalog.sets, ¬(Request.abort ⟨2⟩).Concerns set) ∧
      Confined ⟨⟨1, "RUN1", "USER"⟩, 7, none⟩ (.abort ⟨2⟩) (d.after twoTapes)
        ((d.after twoTapes).handle ⟨⟨1, "RUN1", "USER"⟩, 7, none⟩ (.abort ⟨2⟩)).2 := by
  obtain ⟨d, hformat⟩ := format_of_healthy {} (Device.healthy_blank 4)
  have hreached : Reached (fun d => (∃ device, format {} device = .ok d) ∨ Recovered {} d)
      (d.after twoTapes) := reached_after (.start (Or.inl ⟨_, hformat⟩)) twoTapes
  have hother : ∃ set ∈ ((empty {}).after twoTapes).catalog.sets, (⟨2⟩ : FileId) ∉ set.files := by
    decide +kernel
  rw [← ((alike_format hformat).after twoTapes).catalog] at hother
  exact ⟨d, hformat, hother, confined_of_reached hreached _ nofun⟩

end Directory

end FileDirectory
