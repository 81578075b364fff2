/-
**What an operation does to one cycle.**

Seen from one cycle, an operation of whatever kind is one of a few turns: most leave the cycle as it
is, some create it, assign it, make it live, have it dropped or drop it, release it, or change its
tracks or its guard.  Each turn says who may bring it about and in which state of the cycle, and what
is noted on the roster of it.  What holds of every cycle is derived from these turns.

Main definitions:

* `FileDirectory.Catalog.cycle?` — the cycle of an identifier;
* `FileDirectory.Catalog.Turn` — what a request may do to a cycle, and what it notes of it;
* `FileDirectory.Change.Turns` — a change of the catalog that is a turn for every cycle.

Main results:

* `FileDirectory.Catalog.cycle?_eq_some_iff` — what an identifier finds;
* `FileDirectory.Catalog.turns_assign` and the like, one for each operation — an operation that
  succeeds is a turn for every cycle.
-/

import FileDirectory.Proofs.Catalog.Indexed
import FileDirectory.Proofs.Roster
import FileDirectory.Request

set_option autoImplicit false

namespace FileDirectory

/-! ### What a request is about -/

namespace Request

/-- The state in which the cycle begins that a request creates. -/
def creates : Request → Option CycleState
  | .createTape _ => some .cataloging
  | .createDisk _ => some .live
  | _ => none

/-- The share of its assignments of a cycle that the caller of a request gives up. -/
def share (file : FileId) : Request → Option Catalog.Share
  | .release other => if other = file then some .one else none
  | .releaseAll => some .all
  | _ => none

/-- Whether a request assigns a cycle that exists. -/
def isAssign : Request → Bool
  | .assign .. => true
  | _ => false

/-- Whether a request deletes a cycle. -/
def isDelete : Request → Bool
  | .delete .. => true
  | _ => false

/-- Whether a request changes the guard of a file set. -/
def isGuard : Request → Bool
  | .setGuard .. => true
  | _ => false

end Request

namespace Catalog

/-! ### The cycle of an identifier -/

/-- The cycle of an identifier. -/
def cycle? (c : Catalog) (file : FileId) : Option FileCycle := (c.locate? file).map Prod.snd

variable {c : Catalog}

/-- A cycle is located exactly if it is in a set and has the identifier. -/
theorem locate?_eq_some_iff (hc : c.Indexed) {file : FileId} {set : FileSet} {cycle : FileCycle} :
    c.locate? file = some (set, cycle) ↔
      set ∈ c.sets ∧ cycle ∈ set.cycles ∧ cycle.file = file := by
  refine ⟨locate?_eq_some, ?_⟩
  rintro ⟨hset, hcycle, rfl⟩
  cases hlocate : c.locate? cycle.file with
  | none =>
      have hnone := List.findSome?_eq_none_iff.1 hlocate set hset
      have hfind := List.find?_eq_none.1 (Option.map_eq_none_iff.1 hnone) cycle hcycle
      simp at hfind
  | some found =>
      obtain ⟨other, d⟩ := found
      obtain ⟨hother, hd, hfile⟩ := locate?_eq_some hlocate
      obtain rfl : other = set := hc.apart other hother set hset d.file (List.mem_map_of_mem hd)
        (hfile ▸ List.mem_map_of_mem hcycle)
      rw [List.inj_on_of_nodup_map (hc.nodup other hother) hd hcycle hfile]

/-- **What an identifier finds** is the one cycle that has it. -/
theorem cycle?_eq_some_iff (hc : c.Indexed) {file : FileId} {cycle : FileCycle} :
    c.cycle? file = some cycle ↔ ∃ set ∈ c.sets, cycle ∈ set.cycles ∧ cycle.file = file := by
  unfold cycle?
  rw [Option.map_eq_some_iff]
  constructor
  · rintro ⟨⟨set, d⟩, hlocate, rfl⟩
    obtain ⟨hset, hd, hfile⟩ := locate?_eq_some hlocate
    exact ⟨set, hset, hd, hfile⟩
  · rintro ⟨set, hset, hcycle, hfile⟩
    exact ⟨(set, cycle), (locate?_eq_some_iff hc).2 ⟨hset, hcycle, hfile⟩, rfl⟩

theorem cycle?_of_mem (hc : c.Indexed) {set : FileSet} {cycle : FileCycle} (hset : set ∈ c.sets)
    (hcycle : cycle ∈ set.cycles) : c.cycle? cycle.file = some cycle :=
  (cycle?_eq_some_iff hc).2 ⟨set, hset, hcycle, rfl⟩

theorem file_of_cycle? (hc : c.Indexed) {file : FileId} {cycle : FileCycle}
    (h : c.cycle? file = some cycle) : cycle.file = file := by
  obtain ⟨set, -, -, hfile⟩ := (cycle?_eq_some_iff hc).1 h
  exact hfile

/-- An identifier that was not given out yet finds nothing. -/
theorem cycle?_eq_none_of_lt (hc : c.Indexed) {file : FileId} (h : c.lastFile < file.number) :
    c.cycle? file = none := by
  cases hfound : c.cycle? file with
  | none => rfl
  | some cycle =>
      obtain ⟨set, hset, hcycle, rfl⟩ := (cycle?_eq_some_iff hc).1 hfound
      have hle := hc.le_last set hset cycle.file (List.mem_map_of_mem hcycle)
      omega

/-! ### The cycles after a set was put in its place -/

section Put

variable {set after : FileSet} {space : FreeSpace} {last : Nat}

/-- The cycles that are found after a set was put in its place: those of the set, and those of sets
with other names. -/
theorem cycle?_put_eq_some_iff (hc : c.Indexed)
    (hafter : ({ c with space := space, lastFile := last }.put after).Indexed) {file : FileId}
    {d : FileCycle} :
    ({ c with space := space, lastFile := last }.put after).cycle? file = some d ↔
      d.file = file ∧ (d ∈ after.cycles ∨ ∃ other ∈ c.sets, other.name ≠ after.name ∧
        d ∈ other.cycles) := by
  have hmem : ∀ s, s ∈ ({ c with space := space, lastFile := last }.put after).sets ↔
      (s = after ∧ after.cycles ≠ []) ∨ s ∈ c.sets ∧ s.name ≠ after.name := fun s =>
    mem_sets_put (c := { c with space := space, lastFile := last }) hc.ordered
  rw [cycle?_eq_some_iff hafter]
  constructor
  · rintro ⟨s, hs, hd, hfile⟩
    rcases (hmem s).1 hs with ⟨rfl, -⟩ | ⟨hs, hname⟩
    · exact ⟨hfile, Or.inl hd⟩
    · exact ⟨hfile, Or.inr ⟨s, hs, hname, hd⟩⟩
  · rintro ⟨hfile, hd | ⟨s, hs, hname, hd⟩⟩
    · exact ⟨after, (hmem after).2 (Or.inl ⟨rfl, List.ne_nil_of_mem hd⟩), hd, hfile⟩
    · exact ⟨s, (hmem s).2 (Or.inr ⟨hs, hname⟩), hd, hfile⟩

/-- A set of the catalog, or a new one, that has no cycle yet. -/
def Available (c : Catalog) (set : FileSet) : Prop :=
  set ∈ c.sets ∨ set.cycles = [] ∧ c.find? set.name = none

theorem available_of_setFor {creation : Creation} {client : Client} {set : FileSet}
    (hset : c.setFor creation client = .ok set) : c.Available set := by
  rcases setFor_cases hset with hin | ⟨rfl, hnone⟩
  · exact Or.inl hin
  · exact Or.inr ⟨rfl, hnone⟩

/-- A set that is put in place of one of its name leaves the cycles of other sets as they were. -/
theorem cycle?_put_iff (hc : c.Indexed)
    (hafter : ({ c with space := space, lastFile := last }.put after).Indexed)
    (hset : c.Available set) (hname : after.name = set.name) {file : FileId} {d : FileCycle} :
    ({ c with space := space, lastFile := last }.put after).cycle? file = some d ↔
      d.file = file ∧ (d ∈ after.cycles ∨ c.cycle? file = some d ∧ d ∉ set.cycles) := by
  rw [cycle?_put_eq_some_iff hc hafter]
  refine and_congr_right fun hfile => or_congr_right ?_
  rw [cycle?_eq_some_iff hc, hname]
  constructor
  · rintro ⟨other, hother, hne, hd⟩
    refine ⟨⟨other, hother, hd, hfile⟩, ?_⟩
    intro hin
    rcases hset with hset | ⟨hnil, -⟩
    · exact hne (congrArg FileSet.name (hc.apart other hother set hset d.file
        (List.mem_map_of_mem hd) (List.mem_map_of_mem hin)))
    · rw [hnil] at hin
      cases hin
  · rintro ⟨⟨other, hother, hd, -⟩, hout⟩
    refine ⟨other, hother, ?_, hd⟩
    intro heq
    rcases hset with hset | ⟨-, hnone⟩
    · exact hout (hc.ordered.eq_of_name_eq hother hset heq ▸ hd)
    · exact find?_eq_none_iff.1 hnone other hother heq

/-- A cycle of a set that was changed, and all others as they were. -/
theorem cycle?_put_modify (hc : c.Indexed)
    (hafter : ({ c with space := space, lastFile := last }.put after).Indexed)
    (hset : set ∈ c.sets) (hname : after.name = set.name) {cycle changed : FileCycle}
    (hcycle : cycle ∈ set.cycles)
    (hcycles : after.cycles = (set.modify cycle.file fun _ => changed).cycles)
    (hfile : changed.file = cycle.file) (file : FileId) :
    ({ c with space := space, lastFile := last }.put after).cycle? file =
      if file = cycle.file then some changed else c.cycle? file := by
  refine Option.ext fun d => ?_
  rw [cycle?_put_iff hc hafter (Or.inl hset) hname, hcycles, FileSet.mem_cycles_modify]
  by_cases heq : file = cycle.file
  · subst heq
    rw [if_pos rfl, Option.some_inj, cycle?_of_mem hc hset hcycle, Option.some_inj]
    constructor
    · rintro ⟨hd, (⟨rfl, -⟩ | ⟨-, hne⟩) | ⟨rfl, hout⟩⟩
      · rfl
      · exact absurd hd hne
      · exact absurd hcycle hout
    · rintro rfl
      exact ⟨hfile, Or.inl (Or.inl ⟨rfl, List.mem_map_of_mem hcycle⟩)⟩
  · rw [if_neg heq]
    constructor
    · rintro ⟨hd, (⟨rfl, -⟩ | ⟨hin, -⟩) | ⟨hfound, -⟩⟩
      · exact absurd (hd.symm.trans hfile) heq
      · exact hd ▸ cycle?_of_mem hc hset hin
      · exact hfound
    · intro hfound
      have hd := file_of_cycle? hc hfound
      refine ⟨hd, ?_⟩
      by_cases hin : d ∈ set.cycles
      · exact Or.inl (Or.inr ⟨hin, fun h => heq (hd.symm.trans h)⟩)
      · exact Or.inr ⟨hfound, hin⟩

/-- A cycle of a set that was dropped, and all others as they were. -/
theorem cycle?_put_erase (hc : c.Indexed)
    (hafter : ({ c with space := space, lastFile := last }.put after).Indexed)
    (hset : set ∈ c.sets) (hname : after.name = set.name) {cycle : FileCycle}
    (hcycle : cycle ∈ set.cycles) (hcycles : after.cycles = (set.erase cycle.file).cycles)
    (file : FileId) :
    ({ c with space := space, lastFile := last }.put after).cycle? file =
      if file = cycle.file then none else c.cycle? file := by
  refine Option.ext fun d => ?_
  rw [cycle?_put_iff hc hafter (Or.inl hset) hname, hcycles, FileSet.mem_cycles_erase]
  by_cases heq : file = cycle.file
  · subst heq
    rw [if_pos rfl, cycle?_of_mem hc hset hcycle, Option.some_inj]
    constructor
    · rintro ⟨hd, ⟨-, hne⟩ | ⟨rfl, hout⟩⟩
      · exact absurd hd hne
      · exact absurd hcycle hout
    · intro h
      cases h
  · rw [if_neg heq]
    constructor
    · rintro ⟨hd, ⟨hin, -⟩ | ⟨hfound, -⟩⟩
      · exact hd ▸ cycle?_of_mem hc hset hin
      · exact hfound
    · intro hfound
      have hd := file_of_cycle? hc hfound
      refine ⟨hd, ?_⟩
      by_cases hin : d ∈ set.cycles
      · exact Or.inl ⟨hin, fun h => heq (hd.symm.trans h)⟩
      · exact Or.inr ⟨hfound, hin⟩

/-- A cycle that was added to a set, and all others as they were. -/
theorem cycle?_put_append (hc : c.Indexed)
    (hafter : ({ c with space := space, lastFile := last }.put after).Indexed)
    (hset : c.Available set) (hname : after.name = set.name) {cycle : FileCycle}
    (hcycles : after.cycles = set.cycles ++ [cycle]) (hfile : cycle.file = ⟨c.lastFile + 1⟩)
    (file : FileId) :
    ({ c with space := space, lastFile := last }.put after).cycle? file =
      if file = cycle.file then some cycle else c.cycle? file := by
  have hold : ∀ d ∈ set.cycles, c.cycle? d.file = some d := by
    intro d hd
    rcases hset with hset | ⟨hnil, -⟩
    · exact cycle?_of_mem hc hset hd
    · rw [hnil] at hd
      cases hd
  refine Option.ext fun d => ?_
  rw [cycle?_put_iff hc hafter hset hname, hcycles, List.mem_append, List.mem_singleton]
  by_cases heq : file = cycle.file
  · -- the identifier was not given out before
    have hnone : c.cycle? file = none := by
      rw [heq, hfile]
      exact cycle?_eq_none_of_lt hc (Nat.lt_succ_self _)
    rw [if_pos heq, hnone, Option.some_inj]
    constructor
    · rintro ⟨rfl, (hd | rfl) | ⟨hfound, -⟩⟩
      · rw [hold d hd] at hnone
        cases hnone
      · rfl
      · cases hfound
    · rintro rfl
      exact ⟨heq.symm, Or.inl (Or.inr rfl)⟩
  · rw [if_neg heq]
    constructor
    · rintro ⟨rfl, (hd | rfl) | ⟨hfound, -⟩⟩
      · exact hold d hd
      · exact absurd rfl heq
      · exact hfound
    · intro hfound
      refine ⟨file_of_cycle? hc hfound, ?_⟩
      by_cases hin : d ∈ set.cycles
      · exact Or.inl (Or.inl hin)
      · exact Or.inr ⟨hfound, hin⟩

/-- A cycle of a file set whose guard was set or taken off. -/
def guardedCycle (cycle : FileCycle) (guarded : Bool) : FileCycle :=
  { cycle with item := { cycle.item with
      inhibit := { cycle.item.inhibit with guarded := guarded } } }

/-- The cycles of a set whose guard was changed, and all others as they were. -/
theorem cycle?_put_guardedSet (hc : c.Indexed) {guarded : Bool}
    (hafter : ({ c with space := space, lastFile := last }.put (guardedSet set guarded)).Indexed)
    (hset : set ∈ c.sets) (file : FileId) :
    ({ c with space := space, lastFile := last }.put (guardedSet set guarded)).cycle? file =
      if file ∈ set.files then (c.cycle? file).map (guardedCycle · guarded) else c.cycle? file := by
  refine Option.ext fun d => ?_
  rw [cycle?_put_iff hc hafter (Or.inl hset) rfl]
  have hmem : d ∈ (guardedSet set guarded).cycles ↔ ∃ e ∈ set.cycles, guardedCycle e guarded = d :=
    List.mem_map
  rw [hmem]
  by_cases hin : file ∈ set.files
  · obtain ⟨cycle, hcycle, rfl⟩ := List.mem_map.1 hin
    rw [if_pos hin, cycle?_of_mem hc hset hcycle, Option.map_some, Option.some_inj, Option.some_inj]
    constructor
    · rintro ⟨hd, ⟨e, he, rfl⟩ | ⟨rfl, hout⟩⟩
      · rw [List.inj_on_of_nodup_map (hc.nodup set hset) he hcycle hd]
      · exact absurd hcycle hout
    · rintro rfl
      exact ⟨rfl, Or.inl ⟨cycle, hcycle, rfl⟩⟩
  · rw [if_neg hin]
    constructor
    · rintro ⟨rfl, ⟨e, he, rfl⟩ | ⟨hfound, -⟩⟩
      · exact absurd (List.mem_map_of_mem he) hin
      · exact hfound
    · intro hfound
      have hd := file_of_cycle? hc hfound
      exact ⟨hd, Or.inr ⟨hfound, fun hout => hin (hd ▸ List.mem_map_of_mem hout)⟩⟩

end Put

/-! ### Turns -/

/-- What is left of a cycle of which a client has given up a share of its assignments: it may now be
cataloged, or be dropped for good. -/
def settled (call : Call) (share : Share) (cycle : FileCycle) : Option FileCycle :=
  let cycle := released cycle call share
  match cycle.item.state with
  | .cataloging =>
    if cycle.held call.client = 0 then some (cataloged cycle call.now) else some cycle
  | .dropping => if cycle.item.assigned = 0 then none else some cycle
  | .live | .dropped => some cycle

section Settled

variable {call : Call} {cycle : FileCycle} {share : Share}

theorem settled_of_dropping (hstate : (released cycle call share).item.state = .dropping)
    (hlast : (released cycle call share).item.assigned = 0) : settled call share cycle = none := by
  simp only [settled, hstate, if_pos hlast]

theorem settled_of_cataloging (hstate : (released cycle call share).item.state = .cataloging)
    (hlast : (released cycle call share).held call.client = 0) :
    settled call share cycle = some (cataloged (released cycle call share) call.now) := by
  simp only [settled, hstate, if_pos hlast]

theorem settled_of_stays
    (hdropping : ¬((released cycle call share).item.state = .dropping ∧
      (released cycle call share).item.assigned = 0))
    (hcataloging : ¬((released cycle call share).item.state = .cataloging ∧
      (released cycle call share).held call.client = 0)) :
    settled call share cycle = some (released cycle call share) := by
  unfold settled
  dsimp only
  cases hstate : (released cycle call share).item.state with
  | cataloging => exact if_neg fun hlast => hcataloging ⟨hstate, hlast⟩
  | dropping => exact if_neg fun hlast => hdropping ⟨hstate, hlast⟩
  | live => rfl
  | dropped => rfl

end Settled

/-- What a request may do to the cycle of an identifier, and what is noted of it: the cycle before, if
there was one, and after. -/
inductive Turn (call : Call) (r : Request) (file : FileId) :
    Option FileCycle → Option FileCycle → List Roster.Note → Prop
  | idle (before : Option FileCycle) : Turn call r file before before []
  | create {creation : Creation} {lead : LeadItem} {number : Nat} {regions : List Region}
      (hr : r.creates = some creation.state) :
      Turn call r file none (some (creation.fileCycle lead number file call regions))
        [.assigned call.client file]
  | assign {cycle : FileCycle} (hr : r.isAssign = true)
      (hvisible : FileSet.visible call.client cycle = true) :
      Turn call r file (some cycle) (some (cycle.assign call.client call.now))
        [.assigned call.client file]
  | catalog {cycle : FileCycle} (hr : r = .catalog file) (hstate : cycle.item.state = .cataloging)
      (hcreator : cycle.creator = some call.client) :
      Turn call r file (some cycle) (some (cataloged cycle call.now)) []
  | abort {cycle : FileCycle} (hr : r = .abort file) (hstate : cycle.item.state = .cataloging)
      (hcreator : cycle.creator = some call.client) :
      Turn call r file (some cycle) none cycle.departure
  | doom {cycle : FileCycle} (hr : r.isDelete = true) (hlive : cycle.item.state = .live)
      (hheld : cycle.item.assigned ≠ 0) :
      Turn call r file (some cycle) (some { cycle with item := cycle.item.withState .dropping }) []
  | delete {cycle : FileCycle} (hr : r.isDelete = true) (hlive : cycle.item.state = .live)
      (hheld : cycle.item.assigned = 0) :
      Turn call r file (some cycle) none cycle.departure
  | release {cycle : FileCycle} {share : Share} (hr : r.share file = some share)
      (hheld : cycle.held call.client ≠ 0) :
      Turn call r file (some cycle) (settled call share cycle)
        (releaseNotes call (released cycle call share))
  | grow {cycle : FileCycle} {first count granules : Nat} {table : ExtentTable}
      (hr : r = .allocateTracks file first count) (hheld : cycle.held call.client ≠ 0) :
      Turn call r file (some cycle) (some (grown cycle table granules call.now)) []
  | write {cycle : FileCycle} {first count limit : Nat} (hr : r = .markWritten file first count)
      (hheld : cycle.held call.client ≠ 0) :
      Turn call r file (some cycle)
        (some { cycle with item := writtenItem cycle.item limit call.now }) []
  | guard {cycle : FileCycle} (hr : r.isGuard = true) (guarded : Bool) :
      Turn call r file (some cycle) (some (guardedCycle cycle guarded)) []

end Catalog

/-- A change of the catalog that is a turn for every cycle. -/
def Change.Turns {α : Type} (call : Call) (r : Request) (c : Catalog) (change : Change α) : Prop :=
  ∀ file, Catalog.Turn call r file (c.cycle? file) (change.catalog.cycle? file)
    (Roster.about file change.notes)

theorem Change.Steps.indexed {α : Type} {call : Call} {c : Catalog} {change : Change α}
    (h : change.Steps call c) (hc : c.Indexed) : change.catalog.Indexed := by
  obtain ⟨set, space, last, hstep, -, hcatalog⟩ := h
  rw [hcatalog]
  exact hstep.indexed hc

/-- All other sets stay as they are. -/
theorem Change.Steps.mem_sets_iff {α : Type} {call : Call} {c : Catalog} {change : Change α}
    (h : change.Steps call c) (hc : c.Indexed) {set : FileSet} (hne : set.name ≠ change.touched) :
    set ∈ change.catalog.sets ↔ set ∈ c.sets := by
  obtain ⟨new, space, last, -, htouched, hcatalog⟩ := h
  rw [hcatalog]
  exact Catalog.mem_sets_put_of_ne (c := { c with space := space, lastFile := last }) hc.ordered
    (htouched ▸ hne)

namespace Catalog

variable {c : Catalog} {call : Call} {r : Request}

/-! ### Operations on one cycle -/

theorem file_of_mem_departure {cycle : FileCycle} {n : Roster.Note} (h : n ∈ cycle.departure) :
    n.file = cycle.file := by
  obtain ⟨holder, -, rfl⟩ := List.mem_map.1 h
  rfl

theorem file_of_mem_releaseNotes {cycle : FileCycle} {n : Roster.Note}
    (h : n ∈ releaseNotes call cycle) : n.file = cycle.file := by
  unfold releaseNotes at h
  rcases List.mem_append.1 h with h | h
  · split at h
    · obtain rfl := List.mem_singleton.1 h
      rfl
    · cases h
  · split at h
    · exact file_of_mem_departure h
    · cases h

/-- A change that is a turn for one cycle and leaves all others as they are. -/
theorem turns_of_cycle {α : Type} {change : Change α} (hc : c.Indexed) {set : FileSet}
    {cycle : FileCycle} (hset : set ∈ c.sets) (hcycle : cycle ∈ set.cycles)
    {after : Option FileCycle}
    (hafter : ∀ file, change.catalog.cycle? file =
      if file = cycle.file then after else c.cycle? file)
    (hnotes : ∀ n ∈ change.notes, n.file = cycle.file)
    (hturn : Turn call r cycle.file (some cycle) after change.notes) :
    change.Turns call r c := by
  intro file
  rw [hafter]
  by_cases heq : file = cycle.file
  · have hall : Roster.about cycle.file change.notes = change.notes :=
      List.filter_eq_self.2 fun n hn => by simpa using hnotes n hn
    rw [heq, if_pos rfl, cycle?_of_mem hc hset hcycle, hall]
    exact hturn
  · have hnone : Roster.about file change.notes = [] :=
      List.filter_eq_nil_iff.2 fun n hn => by simpa [hnotes n hn] using Ne.symm heq
    rw [if_neg heq, hnone]
    exact .idle _

theorem turns_assign (hc : c.Indexed) {qualifier filename : String} {spec : CycleSpec}
    {readKey : String} {change : Change FileId}
    (h : c.assign call qualifier filename spec readKey = .ok change) :
    change.Turns call (.assign qualifier filename spec readKey) c := by
  have hafter := (steps_assign hc.nodup h).indexed hc
  obtain ⟨set, hset, cycle, hcycle, hvisible, -, -, rfl⟩ := assign_eq_ok h
  rw [modify_eq (hc.nodup set hset) hcycle] at hafter ⊢
  refine turns_of_cycle hc hset hcycle
    (cycle?_put_modify hc hafter hset rfl hcycle rfl rfl) ?_ (.assign rfl hvisible)
  intro n hn
  obtain rfl := List.mem_singleton.1 hn
  rfl

theorem turns_catalog (hc : c.Indexed) {file : FileId} {change : Change Unit}
    (h : c.catalog call file = .ok change) : change.Turns call (.catalog file) c := by
  have hafter := (steps_catalog h).indexed hc
  obtain ⟨set, hset, cycle, hcycle, rfl, hstate, hcreator, rfl⟩ := catalog_eq_ok h
  refine turns_of_cycle hc hset hcycle
    (cycle?_put_modify hc hafter hset rfl hcycle rfl rfl) ?_ (.catalog rfl hstate hcreator)
  intro n hn
  cases hn

theorem turns_abort (hc : c.Indexed) {file : FileId} {change : Change Unit}
    (h : c.abort call file = .ok change) : change.Turns call (.abort file) c := by
  have hafter := (steps_abort h).indexed hc
  obtain ⟨set, hset, cycle, hcycle, rfl, hstate, hcreator, rfl⟩ := abort_eq_ok h
  exact turns_of_cycle hc hset hcycle (cycle?_put_erase hc hafter hset rfl hcycle rfl)
    (fun _ => file_of_mem_departure) (.abort rfl hstate hcreator)

theorem turns_delete (hc : c.Indexed) {qualifier filename : String} {spec : CycleSpec}
    {writeKey : String} {change : Change Unit}
    (h : c.delete call qualifier filename spec writeKey = .ok change) :
    change.Turns call (.delete qualifier filename spec writeKey) c := by
  have hafter := (steps_delete h).indexed hc
  obtain ⟨set, hset, cycle, hcycle, hlive, -, -, -, rfl⟩ := delete_eq_ok h
  by_cases hheld : cycle.item.assigned = 0
  · simp only [if_pos hheld] at hafter ⊢
    exact turns_of_cycle hc hset hcycle (cycle?_put_erase hc hafter hset rfl hcycle rfl)
      (fun _ => file_of_mem_departure) (.delete rfl hlive hheld)
  · simp only [if_neg hheld] at hafter ⊢
    refine turns_of_cycle hc hset hcycle
      (cycle?_put_modify hc hafter hset rfl hcycle rfl rfl) ?_ (.doom rfl hlive hheld)
    intro n hn
    cases hn

/-- Releasing a share of a cycle settles what is left of it. -/
theorem cycle?_settle (hc : c.Indexed) {set : FileSet} {cycle : FileCycle} {share : Share}
    (hset : set ∈ c.sets) (hcycle : cycle ∈ set.cycles)
    (hafter : (c.settle call set (released cycle call share)).Indexed) (file : FileId) :
    (c.settle call set (released cycle call share)).cycle? file =
      if file = cycle.file then settled call share cycle else c.cycle? file := by
  have hfile : (released cycle call share).file = cycle.file := rfl
  obtain ⟨⟨hstate, hlast⟩, heq⟩ | ⟨⟨hstate, hlast⟩, heq⟩ | ⟨⟨hdropping, hcataloging⟩, heq⟩ :=
    settle_cases c call set (released cycle call share)
  · rw [heq] at hafter ⊢
    rw [settled_of_dropping hstate hlast]
    exact cycle?_put_erase hc hafter hset rfl hcycle rfl file
  · rw [heq, hfile] at hafter ⊢
    rw [settled_of_cataloging hstate hlast]
    exact cycle?_put_modify hc hafter hset rfl hcycle rfl rfl file
  · rw [heq, hfile] at hafter ⊢
    rw [settled_of_stays hdropping hcataloging]
    exact cycle?_put_modify hc hafter hset rfl hcycle rfl rfl file

theorem turns_release (hc : c.Indexed) {file : FileId} {share : Share} {change : Change Unit}
    (hr : r.share file = some share) (h : c.release call file share = .ok change) :
    change.Turns call r c := by
  have hafter := (steps_release h).indexed hc
  obtain ⟨set, hset, cycle, hcycle, rfl, hheld, rfl⟩ := release_eq_ok h
  exact turns_of_cycle hc hset hcycle (cycle?_settle hc hset hcycle hafter)
    (fun _ => file_of_mem_releaseNotes) (.release hr hheld)

theorem turns_allocateTracks (hc : c.Indexed) {file : FileId} {first count : Nat}
    {change : Change Unit} (h : c.allocateTracks call file first count = .ok change) :
    change.Turns call (.allocateTracks file first count) c := by
  have hafter := (steps_allocateTracks h).indexed hc
  obtain ⟨set, hset, cycle, hcycle, rfl, hheld, space, table, -, -, -, rfl⟩ :=
    allocateTracks_eq_ok h
  refine turns_of_cycle hc hset hcycle
    (cycle?_put_modify hc hafter hset rfl hcycle rfl rfl) ?_ (.grow rfl hheld)
  intro n hn
  cases hn

theorem turns_markWritten (hc : c.Indexed) {file : FileId} {first count : Nat}
    {change : Change Unit} (h : c.markWritten call file first count = .ok change) :
    change.Turns call (.markWritten file first count) c := by
  have hafter := (steps_markWritten h).indexed hc
  obtain ⟨set, hset, cycle, hcycle, rfl, hheld, region, -, -, rfl⟩ := markWritten_eq_ok h
  refine turns_of_cycle hc hset hcycle
    (cycle?_put_modify hc hafter hset rfl hcycle rfl rfl) ?_ (.write rfl hheld)
  intro n hn
  cases hn

/-! ### Operations on a file set -/

theorem turns_setGuard (hc : c.Indexed) {qualifier filename : String} {guarded : Bool}
    {writeKey : String} {change : Change Unit}
    (h : c.setGuard call qualifier filename guarded writeKey = .ok change) :
    change.Turns call (.setGuard qualifier filename guarded writeKey) c := by
  have hafter := (steps_setGuard h).indexed hc
  obtain ⟨set, hset, -, -, rfl⟩ := setGuard_eq_ok h
  intro file
  have hcycle : (c.put (guardedSet set guarded)).cycle? file = _ :=
    cycle?_put_guardedSet hc hafter hset file
  dsimp only
  rw [hcycle]
  split
  · cases c.cycle? file with
    | none => exact .idle none
    | some cycle => exact .guard rfl guarded
  · exact .idle _

theorem turns_create (hc : c.Indexed) {creation : Creation} {change : Change FileId}
    (hr : WellFormed c.config creation) (hstate : r.creates = some creation.state)
    (h : c.create call creation = .ok change) : change.Turns call r c := by
  have hafter := (steps_create hr h).indexed hc
  obtain ⟨set, number, newest, regions, space, hset, -, -, -, rfl⟩ := create_eq_ok h
  have hname : (FileSet.refresh {
      lead := if newest then { set.lead with highest := number } else set.lead
      cycles := set.cycles ++ [creation.fileCycle set.lead number ⟨c.lastFile + 1⟩ call
        regions] }).name = set.name := by
    cases newest <;> rfl
  intro file
  have hcycle := cycle?_put_append hc hafter (available_of_setFor hset) hname rfl rfl file
  unfold enter
  dsimp only
  rw [hcycle, file_fileCycle]
  by_cases heq : file = ⟨c.lastFile + 1⟩
  · -- the identifier was not given out before
    have hnone : c.cycle? file = none := by
      rw [heq]
      exact cycle?_eq_none_of_lt hc (Nat.lt_succ_self _)
    subst heq
    rw [if_pos rfl, hnone, Roster.about, List.filter_cons_of_pos (by simp [Roster.Note.file])]
    exact .create hstate
  · rw [if_neg heq, Roster.about,
      List.filter_cons_of_neg (by simp [Roster.Note.file, Ne.symm heq])]
    exact .idle _

theorem turns_createTape (hc : c.Indexed) {request : TapeRequest} {change : Change FileId}
    (h : c.createTape call request = .ok change) : change.Turns call (.createTape request) c := by
  obtain ⟨creation, hr, hstate, -, -, -, -, hcreate⟩ := createTape_eq_ok h
  exact turns_create hc hr (congrArg some hstate.symm) hcreate

theorem turns_createDisk (hc : c.Indexed) {request : DiskRequest} {change : Change FileId}
    (h : c.createDisk call request = .ok change) : change.Turns call (.createDisk request) c := by
  obtain ⟨creation, hr, hstate, -, -, -, -, hcreate⟩ := createDisk_eq_ok h
  exact turns_create hc hr (congrArg some hstate.symm) hcreate

end Catalog

end FileDirectory
