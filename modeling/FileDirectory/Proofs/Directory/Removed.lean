/-
**A cycle that is gone stays gone.**

An identifier that was given out and finds nothing any more finds nothing for ever: no cycle gets it
again, and every request that uses it is answered that there is no such file.  The name of a file set
without cycles finds nothing either, until somebody creates a cycle in the file set again.

Main definitions:

* `FileDirectory.Request.file?`, `FileDirectory.Request.AsksFor`, `FileDirectory.Request.CreatesIn` —
  what a request says of cycles and file sets;
* `FileDirectory.Catalog.Gone` — an identifier was given out and finds nothing any more;
* `FileDirectory.Directory.CreatedAgain` — a file set is created in the course of a history.

Main results:

* `FileDirectory.Directory.Bookkept.turn_handle` — every request is a turn for every cycle;
* `FileDirectory.Directory.gone_after` — what is gone stays gone;
* `FileDirectory.Directory.find?_after` — a name finds nothing until its file set is created again;
* `FileDirectory.Directory.handle_of_file?`, `FileDirectory.Directory.handle_of_asksFor` — what is
  answered to those who ask for what is gone.
-/

import FileDirectory.Proofs.Catalog.Life
import FileDirectory.Proofs.Directory.Bookkeeping
import FileDirectory.Proofs.Directory.Tabled

set_option autoImplicit false

namespace FileDirectory

/-! ### What a request says -/

namespace Request

/-- The cycle that a request names by its identifier. -/
def file? : Request → Option FileId
  | .catalog file | .abort file | .release file | .cycleInfo file => some file
  | .allocateTracks file _ _ | .markWritten file _ _ => some file
  | _ => none

/-- A request asks for the file set of a name, and all that it says is well formed. -/
def AsksFor (name : SetName) : Request → Prop
  | .assign qualifier filename spec key | .delete qualifier filename spec key =>
    SetName.ofTexts qualifier filename = .ok name ∧ spec.Valid ∧
      ∃ capitals, NameRole.key.normalize key = .ok capitals
  | .setGuard qualifier filename _ key =>
    SetName.ofTexts qualifier filename = .ok name ∧
      ∃ capitals, NameRole.key.normalize key = .ok capitals
  | .setInfo qualifier filename => SetName.ofTexts qualifier filename = .ok name
  | _ => False

/-- A request creates a cycle in the file set of a name. -/
def CreatesIn (name : SetName) : Request → Prop
  | .createTape r => SetName.ofTexts r.qualifier r.filename = .ok name
  | .createDisk r => SetName.ofTexts r.qualifier r.filename = .ok name
  | _ => False

end Request

namespace Catalog

variable {c : Catalog} {file : FileId} {name : SetName}

/-! ### Identifiers -/

/-- The identifier was given out, and finds nothing any more. -/
structure Gone (c : Catalog) (file : FileId) : Prop where
  given : file.number ≤ c.lastFile
  absent : c.cycle? file = none

theorem given_of_cycle? (hc : c.Indexed) {cycle : FileCycle} (h : c.cycle? file = some cycle) :
    file.number ≤ c.lastFile := by
  obtain ⟨set, hset, hcycle, rfl⟩ := (cycle?_eq_some_iff hc).1 h
  exact hc.le_last set hset cycle.file (List.mem_map_of_mem hcycle)

/-- A step gives no identifier out twice. -/
theorem Step.gone {call : Call} {set : FileSet} {space : FreeSpace} {last : Nat}
    (hs : Step call c set space last) (hc : c.Indexed) (h : c.Gone file) :
    Gone ({ c with space := space, lastFile := last }.put set) file := by
  have hlast : ({ c with space := space, lastFile := last }.put set).lastFile = last := lastFile_put ..
  refine ⟨?_, ?_⟩
  · rw [hlast]
    exact Nat.le_trans h.given hs.last_le
  · refine Option.eq_none_iff_forall_ne_some.2 fun cycle hfound => ?_
    obtain ⟨rfl, hin⟩ := (cycle?_put_eq_some_iff hc (hs.indexed hc)).1 hfound
    -- every old identifier of the set is one of a set that was there before
    have hold : ∃ old ∈ c.sets, cycle.file ∈ old.files := by
      rcases hin with hin | ⟨other, hother, -, hin⟩
      · rcases (hs.fresh hc).files cycle.file (List.mem_map_of_mem hin) with
          ⟨hnew, -⟩ | ⟨old, hold, -, hfile⟩
        · exact absurd h.given (Nat.not_le.2 hnew)
        · exact ⟨old, hold, hfile⟩
      · exact ⟨other, hother, List.mem_map_of_mem hin⟩
    obtain ⟨old, hold, hfile⟩ := hold
    obtain ⟨before, hbefore, heq⟩ := List.mem_map.1 hfile
    have hsome := cycle?_of_mem hc hold hbefore
    rw [heq, h.absent] at hsome
    cases hsome

/-! ### Names -/

/-- A name finds nothing exactly if no cycle has it. -/
theorem find?_eq_none_iff_cycle? (hc : c.Indexed) :
    c.find? name = none ↔ ∀ file, ∀ cycle ∈ c.cycle? file, cycle.item.key.set ≠ name := by
  rw [find?_eq_none_iff]
  constructor
  · intro hnone file cycle hcycle
    obtain ⟨set, hset, hin, -⟩ := (cycle?_eq_some_iff hc).1 hcycle
    rw [hc.named set hset cycle hin]
    exact hnone set hset
  · intro hnone set hset hname
    obtain ⟨cycle, hcycle⟩ := List.exists_mem_of_ne_nil _ (hc.nonempty set hset)
    refine hnone cycle.file cycle (cycle?_of_mem hc hset hcycle) ?_
    rw [hc.named set hset cycle hcycle, hname]

/-- A creation touches the file set that it names. -/
theorem touched_create {call : Call} {creation : Creation} {change : Change FileId}
    (h : c.create call creation = .ok change) : change.touched = creation.name := by
  obtain ⟨set, number, newest, regions, space, -, -, -, -, rfl⟩ := create_eq_ok h
  rfl

end Catalog

/-- A name that finds something only after a change is that of the file set that was touched. -/
theorem Change.Steps.touched_of_find? {α : Type} {call : Call} {c : Catalog} {change : Change α}
    {name : SetName} (h : change.Steps call c) (hc : c.Indexed) (hnone : c.find? name = none)
    (hsome : change.catalog.find? name ≠ none) : change.touched = name := by
  obtain ⟨set, space, last, -, htouched, hcatalog⟩ := h
  have hput := Catalog.find?_put (c := { c with space := space, lastFile := last }) hc.ordered set name
  rw [hcatalog, hput] at hsome
  rw [htouched]
  by_contra hne
  rw [if_neg (Ne.symm hne)] at hsome
  exact hsome hnone

namespace Directory

open Catalog

variable {d : Directory} {call : Call} {r : Request} {file : FileId} {name : SetName}

/-! ### Requests as turns -/

/-- **Every request is a turn for every cycle**, releasing everything included. -/
theorem Bookkept.turn_handle (h : d.Bookkept) (hd : d.catalog.Indexed) (call : Call) (r : Request)
    (file : FileId) :
    ∃ notes, Turn call r file (d.catalog.cycle? file) ((d.handle call r).2.catalog.cycle? file)
      notes := by
  by_cases hr : r = .releaseAll
  · subst hr
    have hbefore : ∀ b ∈ d.catalog.cycle? file, b.Tallied := fun b hb => (h.of_cycle? hd hb).toTallied
    refine (handle_induction (P := fun e => ∃ notes,
      Turn call .releaseAll file (d.catalog.cycle? file) (e.catalog.cycle? file) notes)
      ?_ hd ⟨[], .idle _⟩).2
    rintro e e' he ⟨notes, hturn⟩ hperformed
    obtain ⟨notes', hnext⟩ := hperformed.turn he file
    exact hturn.trans hnext hbefore
  · exact (performed_handle hr).turn hd file

/-- Requests keep the account. -/
theorem Bookkept.handle (h : d.Bookkept) (hd : d.catalog.Indexed) (call : Call) (r : Request) :
    (d.handle call r).2.catalog.Indexed ∧ (d.handle call r).2.Bookkept :=
  handle_induction (P := Bookkept) (fun _ _ he hbooks hperformed => hperformed.bookkept he hbooks) hd h

/-! ### What is gone -/

theorem Performed.lastFile_le {d' : Directory} (h : Performed call r d d') (hd : d.catalog.Indexed) :
    d.catalog.lastFile ≤ d'.catalog.lastFile := by
  cases h with
  | refused => exact Nat.le_refl _
  | performed change hasked =>
      obtain ⟨set, space, last, hstep, -, hcatalog⟩ := hasked.steps hd
      rw [catalog_perform_ok, hcatalog, lastFile_put]
      exact hstep.last_le

theorem lastFile_le_handle (hd : d.catalog.Indexed) (call : Call) (r : Request) :
    d.catalog.lastFile ≤ (d.handle call r).2.catalog.lastFile := by
  refine (handle_induction (P := fun e => d.catalog.lastFile ≤ e.catalog.lastFile) ?_ hd
    (Nat.le_refl _)).2
  intro e e' he hle hperformed
  exact Nat.le_trans hle (hperformed.lastFile_le he)

theorem Performed.gone {d' : Directory} (h : Performed call r d d') (hd : d.catalog.Indexed)
    (hgone : d.catalog.Gone file) : d'.catalog.Gone file := by
  cases h with
  | refused => exact hgone
  | performed change hasked =>
      obtain ⟨set, space, last, hstep, -, hcatalog⟩ := hasked.steps hd
      rw [catalog_perform_ok, hcatalog]
      exact hstep.gone hd hgone

theorem gone_handle (hd : d.catalog.Indexed) (h : d.catalog.Gone file) (call : Call) (r : Request) :
    (d.handle call r).2.catalog.Indexed ∧ (d.handle call r).2.catalog.Gone file :=
  handle_induction (P := fun e => e.catalog.Gone file)
    (fun _ _ he hgone hperformed => hperformed.gone he hgone) hd h

/-- **What is gone stays gone.** -/
theorem gone_after (hd : d.catalog.Indexed) (h : d.catalog.Gone file)
    (later : List (Call × Request)) : (d.after later).catalog.Gone file := by
  induction later generalizing d with
  | nil => exact h
  | cons request later ih =>
      obtain ⟨hd', hgone⟩ := gone_handle hd h request.1 request.2
      exact ih hd' hgone

/-- What begins by looking up an identifier that finds nothing is refused. -/
theorem refused_of_absent {α : Type} {operation : Operation}
    {rest : FileSet × FileCycle → Except Failure α} (h : d.catalog.cycle? file = none)
    (htime : call.expired 0 = false) :
    (call.check operation 0 >>= fun _ => d.catalog.locate file >>= rest) =
      .error (.noSuchFile file) := by
  have hcheck : call.check operation 0 = .ok () := by simp [Call.check, htime]
  have hlocate : d.catalog.locate file = .error (.noSuchFile file) := by
    have hnone : d.catalog.locate? file = none := Option.map_eq_none_iff.1 h
    rw [locate, hnone]
  rw [hcheck, hlocate]
  rfl

/-- Every request that uses an identifier that finds nothing is told so. -/
theorem handle_of_file? (hd : d.catalog.Indexed) (htabled : d.Tabled) (hr : r.file? = some file)
    (h : d.catalog.cycle? file = none) (htime : call.expired 0 = false) :
    (d.handle call r).1 = .error (.noSuchFile file) := by
  have hrefused : ∀ {outcome : Except Failure (Change Unit)}, outcome = .error (.noSuchFile file) →
      (replied (fun _ => .done) (d.perform outcome)).1 = .error (.noSuchFile file) := by
    rintro _ rfl
    rfl
  cases r with
  | catalog other =>
      obtain rfl := Option.some.inj hr
      exact hrefused (refused_of_absent h htime)
  | abort other =>
      obtain rfl := Option.some.inj hr
      exact hrefused (refused_of_absent h htime)
  | release other =>
      obtain rfl := Option.some.inj hr
      exact hrefused (refused_of_absent h htime)
  | markWritten other first count =>
      obtain rfl := Option.some.inj hr
      exact hrefused (refused_of_absent h htime)
  | allocateTracks other first count =>
      obtain rfl := Option.some.inj hr
      have hcheck : d.catalog.checkAllocation call other first count = .error (.noSuchFile other) :=
        refused_of_absent h htime
      change (replied _ (d.allocateTracks call other first count)).1 = _
      rw [allocateTracks_eq]
      exact hrefused (by rw [Catalog.allocateTracks, hcheck]; rfl)
  | cycleInfo other =>
      obtain rfl := Option.some.inj hr
      have hcheck : call.check .cycleInfo 0 = .ok () := by simp [Call.check, htime]
      have hlocate : d.locate? other = none := by
        rw [htabled.locate?_eq hd]
        exact Option.map_eq_none_iff.1 h
      have hinfo : d.cycleInfo call other = .error (.noSuchFile other) := by
        unfold cycleInfo
        rw [hcheck, hlocate]
        rfl
      exact replied_eq_error.2 hinfo
  | _ => cases hr

/-! ### Names of file sets -/

/-- In the course of a history a cycle is created in the file set of a name. -/
def CreatedAgain (d : Directory) (name : SetName) (later : List (Call × Request)) : Prop :=
  ∃ earlier call r rest, later = earlier ++ (call, r) :: rest ∧ r.CreatesIn name ∧
    ((d.after earlier).handle call r).2.catalog.find? name ≠ none

/-- An operation that makes a name find something has touched the file set of that name. -/
theorem touched_of_perform {α : Type} {outcome : Except Failure (Change α)} (hd : d.catalog.Indexed)
    (hsteps : ∀ change, outcome = .ok change → change.Steps call d.catalog)
    (hnone : d.catalog.find? name = none)
    (hsome : (d.perform outcome).2.catalog.find? name ≠ none) :
    ∃ change, outcome = .ok change ∧ change.touched = name := by
  cases outcome with
  | error f => exact absurd hnone hsome
  | ok change =>
      rw [catalog_perform_ok] at hsome
      exact ⟨change, rfl, (hsteps change rfl).touched_of_find? hd hnone hsome⟩

/-- Only a creation makes a name find something that found nothing. -/
theorem Bookkept.createsIn_of_find? (h : d.Bookkept) (hd : d.catalog.Indexed)
    (hnone : d.catalog.find? name = none) (hsome : (d.handle call r).2.catalog.find? name ≠ none) :
    r.CreatesIn name := by
  have hother : r.creates ≠ none := by
    intro hcreates
    refine hsome ((find?_eq_none_iff_cycle? (h.handle hd call r).1).2 fun file a ha => ?_)
    obtain ⟨notes, hturn⟩ := h.turn_handle hd call r file
    obtain ⟨b, hb, hkey, -⟩ := hturn.keeps hcreates a ha
    rw [hkey]
    exact (find?_eq_none_iff_cycle? hd).1 hnone file b hb
  cases r with
  | createTape request =>
      obtain ⟨change, hchange, rfl⟩ :=
        touched_of_perform hd (fun _ => steps_createTape) hnone hsome
      obtain ⟨creation, -, -, hname, -, -, -, hcreate⟩ := createTape_eq_ok hchange
      rwa [← touched_create hcreate] at hname
  | createDisk request =>
      obtain ⟨change, hchange, rfl⟩ :=
        touched_of_perform hd (fun _ => steps_createDisk) hnone hsome
      obtain ⟨creation, -, -, hname, -, -, -, hcreate⟩ := createDisk_eq_ok hchange
      rwa [← touched_create hcreate] at hname
  | _ => exact absurd rfl hother

/-- **A name that finds nothing goes on finding nothing until its file set is created again.** -/
theorem find?_after (hd : d.catalog.Indexed) (hbooks : d.Bookkept)
    (hnone : d.catalog.find? name = none) {later : List (Call × Request)}
    (hlater : ¬d.CreatedAgain name later) :
    (d.after later).catalog.find? name = none := by
  induction later generalizing d with
  | nil => exact hnone
  | cons request later ih =>
      obtain ⟨call, r⟩ := request
      obtain ⟨hd', hbooks'⟩ := hbooks.handle hd call r
      refine ih hd' hbooks' ?_ ?_
      · by_contra hsome
        exact hlater ⟨[], call, r, later, rfl, hbooks.createsIn_of_find? hd hnone hsome, hsome⟩
      · rintro ⟨earlier, call', r', rest, rfl, hrest⟩
        exact hlater ⟨(call, r) :: earlier, call', r', rest, rfl, hrest⟩

/-- Every well-formed request for a file set whose name finds nothing is told so. -/
theorem handle_of_asksFor (hd : d.catalog.Indexed) (htabled : d.Tabled) (hr : r.AsksFor name)
    (h : d.catalog.find? name = none) (htime : call.expired 0 = false) :
    (d.handle call r).1 = .error (.noSuchSet name) := by
  have hcheck : ∀ operation, call.check operation 0 = .ok () := fun operation => by
    simp [Call.check, htime]
  have hfind : d.catalog.find name = .error (.noSuchSet name) := by rw [find, h]
  cases r with
  | assign qualifier filename spec key =>
      obtain ⟨hname, hspec, capitals, hkey⟩ := hr
      simp [Directory.handle, Directory.assign, Catalog.assign, hcheck, hname, CycleSpec.check, hspec,
        hkey, hfind, bind, Except.bind, replied, Except.map]
  | delete qualifier filename spec key =>
      obtain ⟨hname, hspec, capitals, hkey⟩ := hr
      simp [Directory.handle, Directory.delete, Catalog.delete, hcheck, hname, CycleSpec.check, hspec,
        hkey, hfind, bind, Except.bind, replied, Except.map]
  | setGuard qualifier filename guarded key =>
      obtain ⟨hname, capitals, hkey⟩ := hr
      simp [Directory.handle, Directory.setGuard, Catalog.setGuard, hcheck, hname, hkey, hfind,
        bind, Except.bind, replied, Except.map]
  | setInfo qualifier filename =>
      have hname : SetName.ofTexts qualifier filename = .ok name := hr
      have hnone : d.find? name = none := by rw [htabled.find?_eq hd, h]
      simp [Directory.handle, Directory.setInfo, hcheck, hname, hnone,
        bind, Except.bind, replied, Except.map, throw, throwThe, MonadExceptOf.throw]
  | _ => exact absurd hr id

end Directory

end FileDirectory
