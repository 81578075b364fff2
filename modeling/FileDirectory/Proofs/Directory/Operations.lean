/-
**A history is a run of operations.**

Every request that changes anything is a run of operations, each of which takes a step in the catalog
and then brings the medium up to date with it; releasing everything is one operation for each cycle
that is released.  What every such operation preserves therefore holds after every history.

Main definitions:

* `FileDirectory.Directory.Operated` — one operation, and what went wrong on the medium;
* `FileDirectory.Directory.Operations` — a run of operations;
* `FileDirectory.Directory.trace` — what is noted of the operations of a request, in order;
* `FileDirectory.Directory.reports` — what they complain of, each when it returns.

Main results:

* `FileDirectory.Directory.answer_perform_cases` — what an operation that the catalog accepts answers;
* `FileDirectory.Directory.trace_induction` — what every operation preserves, with what is noted of it,
  every request preserves;
* `FileDirectory.Directory.operations_handle` — a request is a run of operations;
* `FileDirectory.Directory.after_induction` — what every operation preserves holds after every history.
-/

import FileDirectory.Proofs.Catalog.Asked
import FileDirectory.Proofs.Store.Recorded

set_option autoImplicit false

namespace FileDirectory.Directory

open Catalog

/-! ### One operation -/

/-- A step in the catalog of which the medium is told; also says what went wrong there.  What becomes
of the roster and the index is left open. -/
inductive Operated (call : Call) (d : Directory) : Directory → Option Failure → Prop
  | memory {set : FileSet} {space : FreeSpace} {last : Nat} {roster : Roster} {index : Index}
      (hstore : d.store = none) (hstep : Step call d.catalog set space last) :
      Operated call d
        { catalog := { d.catalog with space := space, lastFile := last }.put set
          roster := roster
          index := index } none
  | medium {set : FileSet} {space : FreeSpace} {last : Nat} {roster : Roster} {index : Index}
      {store store' : Store} {trouble : Option Failure} (hstore : d.store = some store)
      (hstep : Step call d.catalog set space last)
      (hrecord : store.record set.name
        (({ d.catalog with space := space, lastFile := last }.put set).find? set.name) =
          (store', trouble)) :
      Operated call d
        { catalog := { d.catalog with space := space, lastFile := last }.put set
          roster := roster
          index := index
          store := some store' } trouble

/-- What goes wrong on the medium is an error of the medium. -/
theorem kind_of_trouble {store store' : Store} {name : SetName} {set? : Option FileSet}
    {f : Failure} (h : store.record name set? = (store', some f)) : f.kind = .mediumIo := by
  have hreport : (store.record name set?).2 = some f := congrArg Prod.snd h
  unfold Store.record Store.report at hreport
  dsimp only at hreport
  split at hreport
  · obtain rfl := Option.some.inj hreport
    rfl
  · exact (Store.complaints_stage _ _ _).2 _ (List.mem_of_mem_head? hreport)

theorem Operated.kind_trouble {call : Call} {d d' : Directory} {trouble : Option Failure}
    (h : Operated call d d' trouble) : ∀ f ∈ trouble, f.kind = .mediumIo := by
  intro f hf
  cases h with
  | memory => cases hf
  | medium _ _ hrecord =>
      obtain rfl := hf
      exact kind_of_trouble hrecord

/-- An operation that the catalog accepts is carried out, and reports what went wrong. -/
theorem operated_perform {α : Type} {call : Call} {d : Directory} {change : Change α}
    (h : change.Steps call d.catalog) :
    ∃ trouble, Operated call d (d.perform (.ok change)).2 trouble ∧
      ∀ f ∈ trouble, (d.perform (.ok change)).1 = .error f := by
  obtain ⟨set, space, last, hstep, htouched, hcatalog⟩ := h
  obtain ⟨catalog, touched, answer, notes, moved⟩ := change
  dsimp only at htouched hcatalog
  subst htouched hcatalog
  obtain ⟨c, roster, index, store⟩ := d
  cases store with
  | none =>
      refine ⟨none, .memory rfl hstep, ?_⟩
      intro f hf
      cases hf
  | some store =>
      unfold perform
      dsimp only
      cases hrecord : store.record set.name
        (({ c with space := space, lastFile := last }.put set).find? set.name) with
      | mk store' trouble =>
          refine ⟨trouble, .medium rfl hstep hrecord, ?_⟩
          rintro f rfl
          rfl

/-- The roster is told what is noted. -/
theorem roster_perform_ok {α : Type} (d : Directory) (change : Change α) :
    (d.perform (.ok change)).2.roster = d.roster.noteAll change.notes := by
  unfold perform
  cases d.store <;> rfl

/-- The index follows what is moved. -/
theorem index_perform_ok {α : Type} (d : Directory) (change : Change α) :
    (d.perform (.ok change)).2.index = (d.index.follow change.moved).settle change.moved := by
  unfold perform
  cases d.store <;> rfl

/-- What an operation that the catalog accepts makes of the store. -/
theorem store_perform_ok {α : Type} {d : Directory} {store : Store} (hstore : d.store = some store)
    (change : Change α) : (d.perform (.ok change)).2.store =
      some (store.record change.touched (change.catalog.find? change.touched)).1 := by
  unfold perform
  rw [hstore]

/-- In memory, an operation that the catalog accepts answers what its change says. -/
theorem answer_perform_memory {α : Type} {d : Directory} (hstore : d.store = none)
    (change : Change α) : (d.perform (.ok change)).1 = .ok change.answer := by
  unfold perform
  rw [hstore]

/-- With a medium it does so too, unless something goes wrong there: that is its answer then. -/
theorem answer_perform_recorded {α : Type} {d : Directory} {store : Store}
    (hstore : d.store = some store) (change : Change α) : (d.perform (.ok change)).1 =
      match (store.record change.touched (change.catalog.find? change.touched)).2 with
      | none => .ok change.answer
      | some f => .error f := by
  obtain ⟨c, roster, index, store?⟩ := d
  obtain rfl : store? = some store := hstore
  rfl

/-- **What an operation that the catalog accepts answers** is what its change says, with nothing gone
wrong on the medium, or an error of the medium. -/
theorem answer_perform_cases {α : Type} (d : Directory) (change : Change α) :
    ((d.perform (.ok change)).1 = .ok change.answer ∧ ∀ store, d.store = some store →
        (store.record change.touched (change.catalog.find? change.touched)).2 = none) ∨
      ∃ f, f.kind = .mediumIo ∧ (d.perform (.ok change)).1 = .error f := by
  cases hstore : d.store with
  | none => exact .inl ⟨answer_perform_memory hstore change, nofun⟩
  | some store =>
      rw [answer_perform_recorded hstore]
      cases hrecord : store.record change.touched (change.catalog.find? change.touched) with
      | mk store' trouble =>
          cases trouble with
          | none =>
              refine .inl ⟨rfl, ?_⟩
              rintro _ ⟨⟩
              rw [hrecord]
          | some f => exact .inr ⟨f, kind_of_trouble hrecord, rfl⟩

/-- Where it returns as it should, nothing went wrong on the medium. -/
theorem trouble_of_perform {α : Type} {d : Directory} {store : Store} (hstore : d.store = some store)
    {change : Change α} {answer : α} (h : (d.perform (.ok change)).1 = .ok answer) :
    (store.record change.touched (change.catalog.find? change.touched)).2 = none := by
  rcases answer_perform_cases d change with ⟨-, htrouble⟩ | ⟨f, -, hanswer⟩
  · exact htrouble store hstore
  · cases h.symm.trans hanswer

/-- Allocating tracks is carried out like every other operation: one that is given up leaves no
trace in the catalog. -/
theorem allocateTracks_eq (d : Directory) (call : Call) (file : FileId) (first count : Nat) :
    d.allocateTracks call file first count =
      d.perform ((d.catalog.allocateTracks call file first count).mapError Halted.failure) := by
  unfold Directory.allocateTracks
  cases houtcome : d.catalog.allocateTracks call file first count with
  | ok change => rfl
  | error halted =>
      dsimp only [Except.mapError]
      rw [catalog_halted houtcome, perform_error]

/-! ### Runs of operations -/

/-- Operations one after another, and all that went wrong on the medium. -/
inductive Operations (call : Call) : Directory → Directory → List Failure → Prop
  | nil (d : Directory) : Operations call d d []
  | cons {d d' d'' : Directory} {trouble : Option Failure} {troubles : List Failure}
      (first : Operated call d d' trouble) (rest : Operations call d' d'' troubles) :
      Operations call d d'' (trouble.toList ++ troubles)

/-- A run of one operation, or of none if the catalog refuses it. -/
theorem operations_perform {α : Type} {call : Call} {d : Directory}
    {outcome : Except Failure (Change α)}
    (h : ∀ change, outcome = .ok change → change.Steps call d.catalog) :
    ∃ troubles, Operations call d (d.perform outcome).2 troubles ∧
      ∀ f ∈ troubles, (d.perform outcome).1 = .error f := by
  cases outcome with
  | error e =>
      refine ⟨[], .nil d, ?_⟩
      intro f hf
      cases hf
  | ok change =>
      obtain ⟨trouble, hoperated, hreport⟩ := operated_perform (h change rfl)
      refine ⟨_, .cons hoperated (.nil _), ?_⟩
      intro f hf
      rw [List.append_nil, Option.mem_toList] at hf
      exact hreport f hf

theorem Operations.append {call : Call} {d d' d'' : Directory} {first rest : List Failure}
    (hfirst : Operations call d d' first) (hrest : Operations call d' d'' rest) :
    Operations call d d'' (first ++ rest) := by
  induction hfirst with
  | nil d => exact hrest
  | cons hop _ ih =>
      rw [List.append_assoc]
      exact .cons hop (ih hrest)

/-- Every operation keeps the cycles of the catalog told apart. -/
theorem Operated.indexed {call : Call} {d d' : Directory} {trouble : Option Failure}
    (h : Operated call d d' trouble) (hd : d.catalog.Indexed) : d'.catalog.Indexed := by
  cases h with
  | memory _ hstep => exact hstep.indexed hd
  | medium _ hstep _ => exact hstep.indexed hd

theorem Operations.indexed {call : Call} {d d' : Directory} {troubles : List Failure}
    (h : Operations call d d' troubles) (hd : d.catalog.Indexed) : d'.catalog.Indexed := by
  induction h with
  | nil d => exact hd
  | cons first _ ih => exact ih (first.indexed hd)

/-! ### Releasing cycles in turn -/

/-- Whether an operation was ended by its deadline. -/
def aborted {α : Type} : Except Failure α → Bool
  | .ok _ => false
  | .error f =>
    match f.kind with
    | .aborted => true
    | _ => false

theorem aborted_eq_true {α : Type} {answer : Except Failure α} :
    aborted answer = true ↔ ∃ f, answer = .error f ∧ f.kind = .aborted := by
  cases answer with
  | ok a => simp [aborted]
  | error f =>
      unfold aborted
      cases hkind : f.kind <;> simp [hkind]

/-- Releasing cycles in turn ends with the first release whose deadline has passed, and goes on
otherwise. -/
theorem releaseEach_cons (call : Call) (d : Directory) (looks released : Nat)
    (trouble : Option Failure) (file : FileId) (files : List FileId) :
    (∃ f, (d.release (call.after looks) file .all).1 = .error f ∧ f.kind = .aborted ∧
      releaseEach call d looks released trouble (file :: files) =
        (.error f, (d.release (call.after looks) file .all).2)) ∨
    (∀ f, (d.release (call.after looks) file .all).1 = .error f → f.kind ≠ .aborted) ∧
      ∃ released' trouble', releaseEach call d looks released trouble (file :: files) =
        releaseEach call (d.release (call.after looks) file .all).2 (looks + 2) released' trouble'
          files := by
  rw [releaseEach]
  generalize d.release (call.after looks) file .all = outcome
  obtain ⟨answer, d'⟩ := outcome
  cases answer with
  | ok u => exact Or.inr ⟨fun f hf => (by cases hf), _, _, rfl⟩
  | error f =>
      dsimp only
      cases hkind : f.kind with
      | aborted => exact Or.inl ⟨f, rfl, hkind, rfl⟩
      | _ =>
          refine Or.inr ⟨?_, _, _, rfl⟩
          rintro g ⟨⟩
          rw [hkind]
          exact fun heq => (by cases heq)

/-! ### The operations of a request -/

section Trace

variable {β : Type} (note : {α : Type} → Directory → Except Failure (Change α) → List β)

/-- What is noted of releasing the given cycles in turn. -/
def traceEach (call : Call) (d : Directory) (looks : Nat) : List FileId → List β
  | [] => []
  | file :: files =>
    let outcome := d.release (call.after looks) file .all
    note d (d.catalog.release (call.after looks) file .all) ++
      bif aborted outcome.1 then [] else traceEach call outcome.2 (looks + 2) files

/-- What is noted of the operations of a request, in the order in which they are carried out. -/
def trace (d : Directory) (call : Call) : Request → List β
  | .createTape r => note d (d.catalog.createTape call r)
  | .createDisk r => note d (d.catalog.createDisk call r)
  | .assign qualifier filename cycle readKey =>
    note d (d.catalog.assign call qualifier filename cycle readKey)
  | .catalog file => note d (d.catalog.catalog call file)
  | .abort file => note d (d.catalog.abort call file)
  | .delete qualifier filename cycle writeKey =>
    note d (d.catalog.delete call qualifier filename cycle writeKey)
  | .release file => note d (d.catalog.release call file .one)
  | .releaseAll =>
    match call.check .releaseAll 0 with
    | .error _ => []
    | .ok () => traceEach note call d 1 (d.heldBy call.client)
  | .allocateTracks file first count =>
    note d ((d.catalog.allocateTracks call file first count).mapError Halted.failure)
  | .markWritten file first count => note d (d.catalog.markWritten call file first count)
  | .setGuard qualifier filename guarded writeKey =>
    note d (d.catalog.setGuard call qualifier filename guarded writeKey)
  | .setInfo .. | .cycleInfo _ | .listSets => []

variable {P : Directory → List β → Prop} {call : Call}

/-- What every release preserves with what is noted of it, releasing cycles in turn preserves with
what is noted of the releases. -/
theorem traceEach_induction
    (hstep : ∀ (e : Directory) (bs : List β) (looks : Nat) (file : FileId), P e bs →
      P (e.release (call.after looks) file .all).2
        (bs ++ note e (e.catalog.release (call.after looks) file .all)))
    {d : Directory} (bs : List β) (h : P d bs) (looks released : Nat) (trouble : Option Failure)
    (files : List FileId) :
    P (releaseEach call d looks released trouble files).2
      (bs ++ traceEach note call d looks files) := by
  induction files generalizing d bs looks released trouble with
  | nil =>
      rw [traceEach, List.append_nil]
      unfold releaseEach
      cases trouble <;> exact h
  | cons file files ih =>
      have hfirst := hstep d bs looks file h
      rw [traceEach]
      rcases releaseEach_cons call d looks released trouble file files with
        ⟨f, hanswer, haborted, heq⟩ | ⟨hnot, released', trouble', heq⟩
      · rw [heq, aborted_eq_true.2 ⟨f, hanswer, haborted⟩, cond_true, List.append_nil]
        exact hfirst
      · have hgoes : aborted (d.release (call.after looks) file .all).1 = false := by
          refine Bool.eq_false_iff.2 fun habort => ?_
          obtain ⟨f, hanswer, haborted⟩ := aborted_eq_true.1 habort
          exact hnot f hanswer haborted
        rw [heq, hgoes, cond_false, ← List.append_assoc]
        exact ih _ hfirst (looks + 2) released' trouble'

/-- **A request that is neither a query nor releasing everything is one operation**: one that the
catalog decides. -/
theorem exists_operation (c : Catalog) (call : Call) {r : Request} (hr : r ≠ .releaseAll)
    (hquery : r.isQuery = false) :
    ∃ (α : Type) (outcome : Except Failure (Change α)) (reply : α → Reply),
      (c.Indexed → ∀ change, outcome = .ok change → change.Steps call c) ∧
      ∀ d : Directory, d.catalog = c →
        d.handle call r = replied reply (d.perform outcome) ∧
        ∀ {β : Type} (note : {α : Type} → Directory → Except Failure (Change α) → List β),
          d.trace note call r = note d outcome := by
  cases r with
  | createTape r =>
      refine ⟨_, c.createTape call r, .file, fun _ _ => steps_createTape, ?_⟩
      rintro d rfl
      exact ⟨rfl, fun _ => rfl⟩
  | createDisk r =>
      refine ⟨_, c.createDisk call r, .file, fun _ _ => steps_createDisk, ?_⟩
      rintro d rfl
      exact ⟨rfl, fun _ => rfl⟩
  | assign qualifier filename cycle readKey =>
      refine ⟨_, c.assign call qualifier filename cycle readKey, .file,
        fun hc _ => steps_assign hc.nodup, ?_⟩
      rintro d rfl
      exact ⟨rfl, fun _ => rfl⟩
  | catalog file =>
      refine ⟨_, c.catalog call file, fun _ => .done, fun _ _ => steps_catalog, ?_⟩
      rintro d rfl
      exact ⟨rfl, fun _ => rfl⟩
  | abort file =>
      refine ⟨_, c.abort call file, fun _ => .done, fun _ _ => steps_abort, ?_⟩
      rintro d rfl
      exact ⟨rfl, fun _ => rfl⟩
  | delete qualifier filename cycle writeKey =>
      refine ⟨_, c.delete call qualifier filename cycle writeKey, fun _ => .done,
        fun _ _ => steps_delete, ?_⟩
      rintro d rfl
      exact ⟨rfl, fun _ => rfl⟩
  | release file =>
      refine ⟨_, c.release call file .one, fun _ => .done, fun _ _ => steps_release, ?_⟩
      rintro d rfl
      exact ⟨rfl, fun _ => rfl⟩
  | releaseAll => exact absurd rfl hr
  | allocateTracks file first count =>
      refine ⟨_, (c.allocateTracks call file first count).mapError Halted.failure, fun _ => .done,
        fun _ _ hchange => steps_allocateTracks (mapError_eq_ok.1 hchange), ?_⟩
      rintro d rfl
      exact ⟨congrArg (replied _) (allocateTracks_eq ..), fun _ => rfl⟩
  | markWritten file first count =>
      refine ⟨_, c.markWritten call file first count, fun _ => .done, fun _ _ => steps_markWritten, ?_⟩
      rintro d rfl
      exact ⟨rfl, fun _ => rfl⟩
  | setGuard qualifier filename guarded writeKey =>
      refine ⟨_, c.setGuard call qualifier filename guarded writeKey, fun _ => .done,
        fun _ _ => steps_setGuard, ?_⟩
      rintro d rfl
      exact ⟨rfl, fun _ => rfl⟩
  | setInfo => cases hquery
  | cycleInfo => cases hquery
  | listSets => cases hquery

/-- A query is no operation. -/
theorem trace_of_isQuery (d : Directory) (call : Call) {r : Request} (h : r.isQuery = true) :
    d.trace note call r = [] := by
  cases r <;> first | exact absurd h Bool.false_ne_true | rfl

/-- **What every operation preserves with what is noted of it, a request preserves with what is noted
of its operations.** -/
theorem trace_induction
    (hstep : ∀ {α : Type} (e : Directory) (bs : List β) (outcome : Except Failure (Change α)),
      (e.catalog.Indexed → ∀ change, outcome = .ok change → change.Steps call e.catalog) →
        P e bs → P (e.perform outcome).2 (bs ++ note e outcome))
    {d : Directory} (h : P d []) (r : Request) :
    P (d.handle call r).2 (d.trace note call r) := by
  cases hquery : r.isQuery with
  | true =>
      rw [handle_of_isQuery d call hquery, trace_of_isQuery note d call hquery]
      exact h
  | false =>
      by_cases hr : r = .releaseAll
      · subst hr
        unfold handle releaseAll trace
        cases call.check .releaseAll 0 with
        | error e => exact h
        | ok u =>
            refine traceEach_induction note ?_ [] h 1 0 none _
            intro e bs looks file
            refine hstep e bs _ fun _ change hchange => ?_
            -- a release looks at the deadline later than the request did
            obtain ⟨set, space, last, hrelease, hrest⟩ := steps_release hchange
            exact ⟨set, space, last, step_of_after hrelease, hrest⟩
      · obtain ⟨α, outcome, reply, hsteps, hd⟩ := exists_operation d.catalog call hr hquery
        obtain ⟨hhandle, htrace⟩ := hd d rfl
        rw [hhandle, htrace note]
        exact hstep d [] outcome hsteps h

end Trace

/-! ### What the operations of a request report -/

/-- A reply reports exactly what the operation does. -/
theorem replied_eq_error {α : Type} {reply : α → Reply} {outcome : Except Failure α × Directory}
    {f : Failure} : (replied reply outcome).1 = .error f ↔ outcome.1 = .error f := by
  obtain ⟨answer, d⟩ := outcome
  cases answer <;> simp [replied, Except.map]

/-- A reply is that the deadline has passed exactly if the operation ends so. -/
@[simp] theorem aborted_replied {α : Type} (reply : α → Reply)
    (outcome : Except Failure α × Directory) :
    aborted (replied reply outcome).1 = aborted outcome.1 := by
  obtain ⟨answer, d⟩ := outcome
  cases answer <;> rfl

/-- What an operation complains of when it returns. -/
def complaint {α : Type} (d : Directory) (outcome : Except Failure (Change α)) : List Failure :=
  match (d.perform outcome).1 with
  | .error f => [f]
  | .ok _ => []

theorem mem_complaint {α : Type} {d : Directory} {outcome : Except Failure (Change α)} {f : Failure} :
    f ∈ d.complaint outcome ↔ (d.perform outcome).1 = .error f := by
  unfold complaint
  cases (d.perform outcome).1 with
  | ok answer => simp
  | error e => simp [eq_comm]

/-- What the operations of a request complain of, each when it returns. -/
def reports (d : Directory) (call : Call) (r : Request) : List Failure := d.trace complaint call r

/-- But for releasing everything the reply tells of it. -/
theorem reply_of_mem_reports {d : Directory} {call : Call} {r : Request} (hr : r ≠ .releaseAll)
    {f : Failure} (hf : f ∈ d.reports call r) : (d.handle call r).1 = .error f := by
  cases hquery : r.isQuery with
  | true =>
      rw [reports, trace_of_isQuery complaint d call hquery] at hf
      cases hf
  | false =>
      obtain ⟨α, outcome, reply, -, hd⟩ := exists_operation d.catalog call hr hquery
      obtain ⟨hhandle, htrace⟩ := hd d rfl
      rw [reports, htrace complaint] at hf
      rw [hhandle]
      exact replied_eq_error.2 (mem_complaint.1 hf)

/-- **A request is a run of operations**, and what goes wrong on the medium is complained of. -/
theorem operations_handle {d : Directory} (hd : d.catalog.Indexed) (call : Call) (r : Request) :
    ∃ troubles, Operations call d (d.handle call r).2 troubles ∧
      ∀ f ∈ troubles, f ∈ d.reports call r := by
  refine trace_induction complaint (P := fun e complaints => ∃ troubles,
    Operations call d e troubles ∧ ∀ f ∈ troubles, f ∈ complaints) ?_ ⟨[], .nil d, nofun⟩ r
  rintro α e complaints outcome hsteps ⟨troubles, hrun, htroubles⟩
  obtain ⟨more, hnext, hmore⟩ := operations_perform (hsteps (hrun.indexed hd))
  refine ⟨troubles ++ more, hrun.append hnext, fun f hf => ?_⟩
  rcases List.mem_append.1 hf with hf | hf
  · exact List.mem_append_left _ (htroubles f hf)
  · exact List.mem_append_right _ (mem_complaint.2 (hmore f hf))

/-! ### What holds after a history -/

theorem Operations.induction {P : Directory → Prop} {call : Call} {d d' : Directory}
    {troubles : List Failure} (h : Operations call d d' troubles) (hd : P d)
    (hstep : ∀ d d' trouble, P d → trouble ∈ none :: troubles.map some →
      Operated call d d' trouble → P d') : P d' := by
  induction h with
  | nil d => exact hd
  | @cons d d' d'' trouble troubles first rest ih =>
      refine ih (hstep _ _ _ hd ?_ first) ?_
      · cases trouble with
        | none => exact List.mem_cons_self
        | some f => exact List.mem_cons_of_mem _ (List.mem_cons_self)
      · intro e e' t he ht
        refine hstep e e' t he ?_
        rcases List.mem_cons.1 ht with rfl | ht
        · exact List.mem_cons_self
        · rw [List.map_append]
          exact List.mem_cons_of_mem _ (List.mem_append_right _ ht)

/-- What every operation preserves that is made by some kind of call holds after every history of such
calls. -/
theorem called_induction {P : Directory → Prop} {Q : Call → Prop}
    (hstep : ∀ call d d' trouble, Q call → d.catalog.Indexed → P d → Operated call d d' trouble →
      P d')
    {d : Directory} (hindexed : d.catalog.Indexed) (hd : P d) {history : List (Call × Request)}
    (hcalls : ∀ request ∈ history, Q request.1) :
    P (d.after history) ∧ (d.after history).catalog.Indexed := by
  induction history generalizing d with
  | nil => exact ⟨hd, hindexed⟩
  | cons request history ih =>
      obtain ⟨call, r⟩ := request
      obtain ⟨hcall, hrest⟩ := List.forall_mem_cons.1 hcalls
      obtain ⟨troubles, hrun, -⟩ := operations_handle hindexed call r
      refine ih (hrun.indexed hindexed) ?_ hrest
      refine (hrun.induction (P := fun d => d.catalog.Indexed ∧ P d) ⟨hindexed, hd⟩ ?_).2
      rintro e e' t ⟨heindexed, he⟩ - hop
      exact ⟨hop.indexed heindexed, hstep call e e' t hcall heindexed he hop⟩

/-- **What every operation preserves holds after every history.** -/
theorem after_induction {P : Directory → Prop}
    (hstep : ∀ call d d' trouble, d.catalog.Indexed → P d → Operated call d d' trouble → P d')
    {d : Directory} (hindexed : d.catalog.Indexed) (hd : P d) (history : List (Call × Request)) :
    P (d.after history) ∧ (d.after history).catalog.Indexed :=
  called_induction (Q := fun _ => True) (fun call e e' t _ => hstep call e e' t) hindexed hd
    fun _ _ => trivial

end FileDirectory.Directory
