/-
**Histories without an error of the medium.**

The reply to a request tells of what went wrong on the medium while it was carried out, with one
exception: releasing everything ends at once when its deadline passes and replies that it was aborted,
whatever went wrong with the cycles that it had released by then.  So nothing goes wrong in a history
in which no reply is an error of the medium, provided that no request that was ended by its deadline
had met one.

Main definitions:

* `FileDirectory.Directory.Quiet` — no reply of a history is an error of the medium;
* `FileDirectory.Directory.Told` — no request of it that was ended by its deadline had met one.

Main results:

* `FileDirectory.Directory.kind_of_mem_reports` — in such a history no operation meets one;
* `FileDirectory.Directory.quiet_induction` — what every operation preserves that meets none holds
  after such a history.
-/

import FileDirectory.Proofs.Catalog.Life
import FileDirectory.Proofs.Directory.Operations

set_option autoImplicit false

namespace FileDirectory.Directory

open Catalog

variable {call : Call} {d : Directory}

/-! ### What releasing everything replies -/

/-- A release fails if its deadline has passed, if the caller has nothing to give up, or on the
medium. -/
theorem kind_of_release {file : FileId} {share : Share} {f : Failure}
    (h : (d.release call file share).1 = .error f) :
    f.kind = .aborted ∨ (f.kind = .notFound ∨ f.kind = .notAssigned) ∨ f.kind = .mediumIo := by
  unfold release at h
  cases houtcome : d.catalog.release call file share with
  | error e =>
      rw [houtcome] at h
      obtain rfl := Except.error.inj h
      rcases release_eq_error houtcome with haborted | ⟨hnothing, -⟩
      · exact .inl haborted
      · exact .inr (.inl hnothing)
  | ok change =>
      rw [houtcome] at h
      rcases answer_perform_cases d change with ⟨hanswer, -⟩ | ⟨g, hkind, hanswer⟩
      · cases hanswer.symm.trans h
      · obtain rfl := Except.error.inj (hanswer.symm.trans h)
        exact .inr (.inr hkind)

/-- **Releasing cycles in turn tells of an error of the medium**, unless its deadline ends it: its
reply is the first of them. -/
theorem exists_error_releaseEach {looks released : Nat} {trouble : Option Failure}
    {files : List FileId} (hkind : ∀ f ∈ trouble, f.kind = .mediumIo)
    (hend : aborted (releaseEach call d looks released trouble files).1 = false)
    (htrouble : trouble.isSome ∨
      ∃ f ∈ traceEach complaint call d looks files, f.kind = .mediumIo) :
    ∃ f, (releaseEach call d looks released trouble files).1 = .error f ∧ f.kind = .mediumIo := by
  induction files generalizing d looks released trouble with
  | nil =>
      rcases htrouble with hsome | ⟨f, hf, -⟩
      · obtain ⟨f, rfl⟩ := Option.isSome_iff_exists.1 hsome
        exact ⟨f, rfl, hkind f rfl⟩
      · cases hf
  | cons file files ih =>
      have hrelease : ∀ f, (d.release (call.after looks) file .all).1 = .error f →
          f.kind = .aborted ∨ (f.kind = .notFound ∨ f.kind = .notAssigned) ∨ f.kind = .mediumIo :=
        fun _ => kind_of_release
      have hcomplaint : ∀ f, f ∈ d.complaint (d.catalog.release (call.after looks) file .all) ↔
          (d.release (call.after looks) file .all).1 = .error f := fun _ => mem_complaint
      simp only [traceEach, List.mem_append, hcomplaint] at htrouble
      rw [releaseEach] at hend ⊢
      generalize d.release (call.after looks) file .all = outcome at hrelease htrouble hend ⊢
      obtain ⟨answer, d'⟩ := outcome
      cases answer with
      | ok u =>
          refine ih hkind hend (htrouble.imp_right ?_)
          rintro ⟨f, hf | hf, hmedium⟩
          · cases hf
          · exact ⟨f, hf, hmedium⟩
      | error f =>
          dsimp only at hend ⊢
          rcases hrelease f rfl with haborted | hnothing | hmedium
          · rw [haborted] at hend
            exact absurd (aborted_eq_true.2 ⟨f, rfl, haborted⟩) (Bool.eq_false_iff.1 hend)
          · -- a cycle that is no longer there or no longer assigned is passed over
            have hgoes : aborted (.error f : Except Failure Unit) = false := by
              unfold aborted
              dsimp only
              rcases hnothing with hnothing | hnothing <;> rw [hnothing]
            have hrest : trouble.isSome ∨
                ∃ g ∈ traceEach complaint call d' (looks + 2) files, g.kind = .mediumIo := by
              refine htrouble.imp_right ?_
              rintro ⟨g, hg | hg, hmedium⟩
              · obtain rfl := Except.error.inj hg
                rcases hnothing with hnothing | hnothing <;> cases hnothing.symm.trans hmedium
              · rw [hgoes] at hg
                exact ⟨g, hg, hmedium⟩
            rcases hnothing with hnothing | hnothing <;> rw [hnothing] at hend ⊢ <;>
              exact ih hkind hend hrest
          · rw [hmedium] at hend ⊢
            refine ih (fun g hg => ?_) hend (.inl (by cases trouble <;> rfl))
            cases trouble with
            | none =>
                obtain rfl := Option.some.inj hg
                exact hmedium
            | some first => exact hkind g hg

/-! ### Histories without an error of the medium -/

/-- No reply of a history is an error of the medium. -/
def Quiet (d : Directory) : List (Call × Request) → Prop
  | [] => True
  | (call, r) :: history =>
    (∀ f, (d.handle call r).1 = .error f → f.kind ≠ .mediumIo) ∧ (d.handle call r).2.Quiet history

/-- No request of a history that its deadline ended had met an error of the medium.  This says
something of releasing everything only, which may have released some cycles by then: any other request
that was aborted has done nothing. -/
def Told (d : Directory) : List (Call × Request) → Prop
  | [] => True
  | (call, r) :: history =>
    (aborted (d.handle call r).1 = true → ∀ f ∈ d.reports call r, f.kind ≠ .mediumIo) ∧
      (d.handle call r).2.Told history

/-- **Then no operation has met an error of the medium.** -/
theorem kind_of_mem_reports {r : Request}
    (hreply : ∀ f, (d.handle call r).1 = .error f → f.kind ≠ .mediumIo)
    (haborted : aborted (d.handle call r).1 = true → ∀ f ∈ d.reports call r, f.kind ≠ .mediumIo) :
    ∀ f ∈ d.reports call r, f.kind ≠ .mediumIo := by
  by_cases hr : r = .releaseAll
  · subst hr
    by_cases hend : aborted (d.handle call .releaseAll).1 = true
    · exact haborted hend
    · intro f hf hmedium
      have hend' := Bool.eq_false_iff.2 hend
      unfold reports trace at hf
      unfold handle releaseAll at hend' hreply
      cases hcheck : call.check .releaseAll 0 with
      | error e =>
          rw [hcheck] at hf
          cases hf
      | ok u =>
          rw [hcheck] at hf hend' hreply
          obtain ⟨g, hanswer, hkind⟩ : ∃ g, (releaseEach call d 1 0 none (d.heldBy call.client)).1 =
              .error g ∧ g.kind = .mediumIo :=
            exists_error_releaseEach nofun (by rwa [aborted_replied] at hend') (.inr ⟨f, hf, hmedium⟩)
          exact hreply g (replied_eq_error.2 hanswer) hkind
  · exact fun f hf => hreply f (reply_of_mem_reports hr hf)

/-- A history may begin with a request that succeeds. -/
theorem quiet_cons_of_ok {r : Request} {history : List (Call × Request)} {reply : Reply}
    (h : (d.handle call r).1 = .ok reply) (hquiet : (d.handle call r).2.Quiet history)
    (htold : (d.handle call r).2.Told history) :
    d.Quiet ((call, r) :: history) ∧ d.Told ((call, r) :: history) := by
  refine ⟨⟨fun f hf => ?_, hquiet⟩, fun haborted => ?_, htold⟩
  · cases h.symm.trans hf
  · rw [h] at haborted
    cases haborted

/-- **What every operation preserves that meets no error of the medium holds after every history
without one.** -/
theorem quiet_induction {P : Directory → Prop}
    (hstep : ∀ call d d', d.catalog.Indexed → P d → Operated call d d' none → P d')
    (hindexed : d.catalog.Indexed) (hd : P d) {history : List (Call × Request)}
    (hquiet : d.Quiet history) (htold : d.Told history) :
    P (d.after history) ∧ (d.after history).catalog.Indexed := by
  induction history generalizing d with
  | nil => exact ⟨hd, hindexed⟩
  | cons request history ih =>
      obtain ⟨call, r⟩ := request
      have hreports := kind_of_mem_reports hquiet.1 htold.1
      obtain ⟨troubles, hrun, htroubles⟩ := operations_handle hindexed call r
      refine ih (hrun.indexed hindexed) ?_ hquiet.2 htold.2
      refine (hrun.induction (P := fun d => d.catalog.Indexed ∧ P d) ⟨hindexed, hd⟩ ?_).2
      rintro e e' t ⟨heindexed, he⟩ ht hop
      -- whatever went wrong would have been complained of
      have hnone : t = none := by
        rcases List.mem_cons.1 ht with hnone | hsome
        · exact hnone
        · obtain ⟨f, hf, rfl⟩ := List.mem_map.1 hsome
          exact absurd (hop.kind_trouble f rfl) (hreports f (htroubles f hf))
      subst hnone
      exact ⟨hop.indexed heindexed, hstep call e e' heindexed he hop⟩

end FileDirectory.Directory
