/-
**What an operation does to the catalog.**

Many operations of many kinds come down to few changes of the catalog.  Each that succeeds puts one
file set in its place: with a cycle added or dropped, with a cycle of it changed, with more tracks
behind a cycle, or with its guard changed.  What holds of the catalog after every operation is
derived from these changes, not from the operations.

Main definitions:

* `FileDirectory.Catalog.Addressable` — a region of tracks that a caller may ask for of a cycle;
* `FileDirectory.Catalog.CycleStep` — how a cycle changes that goes on existing;
* `FileDirectory.Catalog.Step` — what an operation puts into the catalog;
* `FileDirectory.Change.Steps` — a change of the catalog that is such a step.

Main results:

* `FileDirectory.Catalog.assign_eq_ok` and the like, one for each operation — what an operation that
  succeeds was given and what it changes;
* `FileDirectory.Catalog.steps_assign` and the like — an operation that succeeds is a step;
* `FileDirectory.Catalog.catalog_halted` — an allocation that is given up changes nothing.
-/

import FileDirectory.Directory
import FileDirectory.Proofs.Catalog.Order
import FileDirectory.Proofs.Outcome
import FileDirectory.Proofs.Pack.ExtentTable

set_option autoImplicit false

namespace FileDirectory

/-! ### Deadlines -/

namespace Call

variable {call : Call}

/-- A deadline that has not passed yet had not passed before. -/
theorem expired_eq_false_of_le {m n : Nat} (h : m ≤ n) (hn : call.expired n = false) :
    call.expired m = false := by
  cases hm : call.expired m with
  | false => rfl
  | true => rw [← hn, expired_mono h hm]

/-- The deadline of the rest of a call is that of the call. -/
theorem expired_after (call : Call) (looks earlier : Nat) :
    (call.after looks).expired earlier = call.expired (looks + earlier) := by
  unfold after expired
  cases call.patience with
  | none => rfl
  | some n => simp [Nat.add_comm]

theorem check_of_expired {operation : Operation} {earlier : Nat}
    (h : call.expired earlier = false) : call.check operation earlier = .ok () := by
  rw [check, h]
  rfl

theorem kind_of_check {operation : Operation} {earlier : Nat} {f : Failure}
    (h : call.check operation earlier = .error f) : f.kind = .aborted := by
  unfold check at h
  split at h
  · cases h
    rfl
  · cases h

end Call

namespace Catalog

/-! ### Changes of a cycle -/

/-- A region of tracks that a cycle on mass storage may have: not empty, with numbers that fit into
words. -/
structure Addressable (cycle : FileCycle) (region : Region) : Prop where
  fileType : cycle.item.fileType = .massStorage
  nonempty : 0 < region.count
  limit_le : region.limit ≤ Word.maxValue

/-- How a cycle changes that goes on existing on the tracks that it has. -/
inductive CycleStep (call : Call) (cycle : FileCycle) : FileCycle → Prop
  | assign (hvisible : FileSet.visible call.client cycle = true) :
      CycleStep call cycle (cycle.assign call.client call.now)
  | release (share : Share) (hheld : cycle.held call.client ≠ 0) :
      CycleStep call cycle (released cycle call share)
  | delete (hlive : cycle.item.state = .live) :
      CycleStep call cycle { cycle with item := cycle.item.withState .dropping }
  | write (region : Region) (hregion : Addressable cycle region)
      (hcovers : cycle.item.table.covers region = true) :
      CycleStep call cycle { cycle with item := writtenItem cycle.item region.limit call.now }

/-- How a cycle that is being cataloged changes when it becomes live. -/
inductive CatalogStep (call : Call) (cycle : FileCycle) : FileCycle → Prop
  | catalog (hcreator : cycle.creator = some call.client) :
      CatalogStep call cycle (cataloged cycle call.now)
  | release (share : Share) (hheld : cycle.held call.client ≠ 0) :
      CatalogStep call cycle (cataloged (released cycle call share) call.now)

/-- A cycle with more tracks behind it. -/
def grown (cycle : FileCycle) (table : ExtentTable) (granules now : Nat) : FileCycle :=
  { cycle with item := { cycle.item with
      table := table
      highestGranule := max cycle.item.highestGranule granules
      lastReference := now } }

/-! ### Well-formed creations -/

/-- The requests that reach the catalog. -/
inductive CreationKind (config : Configuration) (r : Creation) : Prop
  | tape (htype : r.fileType = .tape) (hstate : r.state = .cataloging)
      (hrange : r.maxRange = config.defaultMaxRange ∨
        1 ≤ r.maxRange ∧ r.maxRange ≤ Cycle.highestNumber)
      (hreserve : r.initialReserve = 0)
  | disk (htype : r.fileType = .massStorage) (hstate : r.state = .live)
      (hrange : r.maxRange = config.defaultMaxRange)
      (hreserve : r.initialReserve ≤ r.maxGranules) (hmax : r.maxGranules ≤ Word.maxValue)

/-- A creation in the form that the operations give it. -/
structure WellFormed (config : Configuration) (r : Creation) : Prop where
  qualifier : NameRole.qualifier.Fits r.name.qualifier.toList
  filename : NameRole.filename.Fits r.name.filename.toList
  readKey : NameRole.key.Fits r.readKey.toList
  writeKey : NameRole.key.Fits r.writeKey.toList
  cycle : r.cycle.Valid
  kind : CreationKind config r

/-! ### Changes of the catalog -/

/-- What an operation that succeeds puts into the catalog: a file set in its place, the free space
and the last identifier. -/
inductive Step (call : Call) (c : Catalog) : FileSet → FreeSpace → Nat → Prop
  | enter {r : Creation} {set : FileSet} {number : Nat} {newest : Bool} {regions : List Region}
      {space : FreeSpace} (hr : WellFormed c.config r)
      (hset : c.setFor r call.client = .ok set)
      (hnumber : set.chooseNew r.cycle = .ok (number, newest))
      (htracks : r.initialReserve * c.config.tracksPerGranule r.granularity ≤ Word.maxValue)
      (hspace : c.space.allocate (r.initialReserve * c.config.tracksPerGranule r.granularity) =
        some (regions, space)) :
      Step call c
        (FileSet.refresh {
          lead := if newest then { set.lead with highest := number } else set.lead
          cycles := set.cycles ++ [r.fileCycle set.lead number ⟨c.lastFile + 1⟩ call regions] })
        space (c.lastFile + 1)
  | change {set : FileSet} {cycle after : FileCycle} (hset : set ∈ c.sets)
      (hcycle : cycle ∈ set.cycles) (hstep : CycleStep call cycle after) :
      Step call c (set.modify cycle.file fun _ => after) c.space c.lastFile
  | catalog {set : FileSet} {cycle after : FileCycle} (hset : set ∈ c.sets)
      (hcycle : cycle ∈ set.cycles) (hstate : cycle.item.state = .cataloging)
      (hstep : CatalogStep call cycle after) :
      Step call c (set.modify cycle.file fun _ => after).refresh c.space c.lastFile
  | drop {set : FileSet} {cycle : FileCycle} (hset : set ∈ c.sets) (hcycle : cycle ∈ set.cycles) :
      Step call c (set.erase cycle.file).refresh
        (releaseAll c.space cycle.item.table.packRegions) c.lastFile
  | grow {set : FileSet} {cycle : FileCycle} {region : Region} {space : FreeSpace}
      {table : ExtentTable} (hset : set ∈ c.sets) (hcycle : cycle ∈ set.cycles)
      (hregion : Addressable cycle region)
      (hgranules : granulesUpTo region.limit
          (c.config.tracksPerGranule cycle.item.characteristics.granularity) ≤
        cycle.item.maxGranules)
      (hfill : fill c.space cycle.item.table (cycle.item.table.gaps region) = (none, space, table)) :
      Step call c
        (set.modify cycle.file fun _ => grown cycle table
          (granulesUpTo region.limit
            (c.config.tracksPerGranule cycle.item.characteristics.granularity)) call.now)
        space c.lastFile
  | guard {set : FileSet} (hset : set ∈ c.sets) (guarded : Bool) :
      Step call c (guardedSet set guarded) c.space c.lastFile

end Catalog

/-- The key of a file set in a role. -/
def LeadItem.keyFor (lead : LeadItem) : KeyRole → String
  | .read => lead.readKey
  | .write => lead.writeKey

/-- A change of the catalog that puts in place what a step says. -/
def Change.Steps {α : Type} (call : Call) (c : Catalog) (change : Change α) : Prop :=
  ∃ set space last, Catalog.Step call c set space last ∧ change.touched = set.name ∧
    change.catalog = { c with space := space, lastFile := last }.put set

namespace Catalog

/-! ### Arguments that were accepted -/

theorem find_eq_ok {c : Catalog} {name : SetName} {set : FileSet} (h : c.find name = .ok set) :
    set ∈ c.sets ∧ set.name = name := by
  unfold find at h
  cases hfind : c.find? name with
  | none =>
      rw [hfind] at h
      cases h
  | some other =>
      rw [hfind] at h
      cases h
      exact ⟨List.mem_of_find?_eq_some hfind, by simpa using List.find?_some hfind⟩

theorem locate?_of_locate {c : Catalog} {file : FileId} {found : FileSet × FileCycle}
    (h : c.locate file = .ok found) : c.locate? file = some found := by
  unfold locate at h
  cases hlocate : c.locate? file with
  | none =>
      rw [hlocate] at h
      cases h
  | some other =>
      rw [hlocate] at h
      cases h
      rfl

theorem locate_eq_ok {c : Catalog} {file : FileId} {found : FileSet × FileCycle}
    (h : c.locate file = .ok found) :
    found.1 ∈ c.sets ∧ found.2 ∈ found.1.cycles ∧ found.2.file = file :=
  locate?_eq_some (locate?_of_locate h)

theorem locate_eq_error {c : Catalog} {file : FileId} {f : Failure}
    (h : c.locate file = .error f) : c.locate? file = none ∧ f = .noSuchFile file := by
  unfold locate at h
  cases hlocate : c.locate? file with
  | none =>
      rw [hlocate] at h
      cases h
      exact ⟨rfl, rfl⟩
  | some found =>
      rw [hlocate] at h
      cases h

/-- A caller names a cycle that it sees. -/
theorem resolve_eq_ok {set : FileSet} {spec : CycleSpec} {client : Client} {cycle : FileCycle}
    (h : set.resolve spec client = .ok cycle) :
    cycle ∈ set.cycles ∧ FileSet.visible client cycle = true := by
  have hlive : ∀ d, d ∈ set.liveByAge → d ∈ set.cycles ∧ FileSet.visible client d = true := by
    intro d hd
    obtain ⟨hmem, hstate⟩ := FileSet.mem_liveByAge.1 hd
    exact ⟨hmem, by simp [FileSet.visible, hstate]⟩
  have hsome : set.resolve? spec client = some cycle := by
    unfold FileSet.resolve at h
    cases hr : set.resolve? spec client with
    | none =>
        rw [hr] at h
        cases h
    | some d =>
        rw [hr] at h
        cases h
        rfl
  unfold FileSet.resolve? at hsome
  split at hsome
  · have hfound := List.find?_some hsome
    rw [Bool.and_eq_true] at hfound
    exact ⟨List.mem_of_find?_eq_some hsome, hfound.2⟩
  · exact hlive cycle (List.mem_of_mem_head? hsome)
  · split at hsome
    · exact hlive cycle (List.mem_of_getElem? hsome)
    · have hfound := List.find?_some hsome
      rw [Bool.and_eq_true] at hfound
      exact ⟨List.mem_of_find?_eq_some hsome, hfound.2⟩

theorem checkCreator_eq_ok {call : Call} {cycle : FileCycle} {u : Unit}
    (h : checkCreator call cycle = .ok u) :
    cycle.item.state = .cataloging ∧ cycle.creator = some call.client := by
  unfold checkCreator at h
  split at h
  · cases h
  · rename_i hstate
    split at h
    · cases h
    · rename_i hcreator
      exact ⟨Decidable.not_not.1 hstate, Decidable.not_not.1 hcreator⟩

/-- What a caller passes opens what a stored key protects. -/
def Opens (stored text : String) : Prop :=
  ∃ given, NameRole.key.normalize text = .ok given ∧ keyAccepted stored given = true

theorem checkKey_eq_ok {lead : LeadItem} {role : KeyRole} {given : String} {u : Unit}
    (h : lead.checkKey role given = .ok u) : keyAccepted (lead.keyFor role) given = true := by
  by_contra haccepted
  have herror : lead.checkKey role given = .error (.keyDiffers role lead.name) := by
    cases role <;> exact if_neg haccepted
  rw [herror] at h
  cases h

theorem checkTracks_eq_ok {call : Call} {cycle : FileCycle} {first count : Nat} {region : Region}
    (h : checkTracks call cycle first count = .ok region) :
    cycle.held call.client ≠ 0 ∧ region = ⟨first, count⟩ ∧ Addressable cycle region := by
  unfold checkTracks at h
  split at h
  · cases h
  · rename_i htype
    split at h
    · cases h
    · rename_i hheld
      split at h
      · cases h
      · rename_i hrange
        cases h
        refine ⟨hheld, rfl, Decidable.not_not.1 htype, ?_, ?_⟩
        · exact Nat.pos_of_ne_zero fun hzero => hrange (Or.inl hzero)
        · exact Nat.not_lt.1 fun hlt => hrange (Or.inr hlt)

theorem fits_of_normalize {role : NameRole} {text name : String}
    (h : role.normalize text = .ok name) : role.Fits name.toList := by
  obtain ⟨hfits, rfl⟩ := NameRole.normalize_eq_ok_iff.1 h
  simpa using hfits

theorem ofTexts_eq_ok {qualifier filename : String} {name : SetName}
    (h : SetName.ofTexts qualifier filename = .ok name) :
    NameRole.qualifier.Fits name.qualifier.toList ∧
      NameRole.filename.Fits name.filename.toList := by
  simp only [SetName.ofTexts, bind_eq_ok, pure_eq_ok] at h
  obtain ⟨q, hq, f, hf, rfl⟩ := h
  exact ⟨fits_of_normalize hq, fits_of_normalize hf⟩

theorem check_eq_ok {spec spec' : CycleSpec} (h : spec.check = .ok spec') :
    spec' = spec ∧ spec'.Valid := by
  unfold CycleSpec.check at h
  split at h
  · rename_i hvalid
    cases h
    exact ⟨rfl, hvalid⟩
  · cases h

/-- What a creation must have in common with the file set that it goes into. -/
theorem checkSet_eq_ok {r : Creation} {set : FileSet} (h : r.checkSet set = .ok ()) :
    set.lead.fileType = r.fileType ∧ keyAccepted set.lead.readKey r.readKey = true ∧
      keyAccepted set.lead.writeKey r.writeKey = true := by
  unfold Creation.checkSet at h
  split at h
  · cases h
  · rename_i htype
    split at h
    · rename_i haccepted
      exact ⟨Decidable.not_not.1 htype, Bool.and_eq_true_iff.1 haccepted⟩
    · cases h

/-- **The set that a creation goes into** is the one of its name, which it must fit, or else a new
one. -/
theorem find?_of_setFor {c : Catalog} {r : Creation} {client : Client} {set : FileSet}
    (h : c.setFor r client = .ok set) :
    c.find? r.name = some set ∧ r.checkSet set = .ok () ∨
      c.find? r.name = none ∧ set = r.newSet client := by
  unfold setFor at h
  cases hfind : c.find? r.name with
  | none =>
      rw [hfind] at h
      cases h
      exact Or.inr ⟨rfl, rfl⟩
  | some other =>
      rw [hfind] at h
      obtain ⟨_, hcheck, h⟩ := bind_eq_ok.1 h
      cases h
      exact Or.inl ⟨rfl, hcheck⟩

theorem setFor_eq_ok {c : Catalog} {r : Creation} {client : Client} {set : FileSet}
    (h : c.setFor r client = .ok set) : set.name = r.name := by
  rcases find?_of_setFor h with ⟨hfind, -⟩ | ⟨-, rfl⟩
  · simpa using List.find?_some hfind
  · rfl

/-- A cycle is added only to a file set of its type. -/
theorem fileType_of_setFor {c : Catalog} {r : Creation} {client : Client} {set : FileSet}
    (h : c.setFor r client = .ok set) : set.lead.fileType = r.fileType := by
  rcases find?_of_setFor h with ⟨-, hcheck⟩ | ⟨-, rfl⟩
  · exact (checkSet_eq_ok hcheck).1
  · rfl

theorem checkGranules_eq_ok {role : GranuleRole} {count granules : Nat}
    (h : checkGranules role count = .ok granules) : granules ≤ Word.maxValue := by
  unfold checkGranules at h
  split at h
  · cases h
  · rename_i hle
    cases h
    exact Nat.not_lt.1 hle

theorem reserve_le_of_create {c : Catalog} {call : Call} {r : Creation} {change : Change FileId}
    (h : c.create call r = .ok change) : r.initialReserve ≤ r.maxGranules := by
  simp only [create, bind_eq_ok, ite_throw_eq_ok] at h
  obtain ⟨-, -, -, set, -, number, -, hle, -⟩ := h
  exact Nat.not_lt.1 hle

/-! ### The operations are steps -/

/-- Changing the one cycle of an identifier is putting the changed cycle in its place. -/
theorem modify_eq {set : FileSet} {cycle : FileCycle} {f : FileCycle → FileCycle}
    (hfiles : (set.cycles.map FileCycle.file).Nodup) (hcycle : cycle ∈ set.cycles) :
    set.modify cycle.file f = set.modify cycle.file fun _ => f cycle := by
  have hsame : ∀ d ∈ set.cycles, d.file = cycle.file → d = cycle := by
    intro d hd hfile
    exact List.inj_on_of_nodup_map hfiles hd hcycle hfile
  unfold FileSet.modify
  congr 1
  refine List.map_congr_left ?_
  intro d hd
  by_cases hfile : d.file = cycle.file
  · rw [if_pos hfile, if_pos hfile, hsame d hd hfile]
  · rw [if_neg hfile, if_neg hfile]

section Operations

variable {c : Catalog} {call : Call}

/-- An assignment that succeeds is of a cycle that the caller sees, under the read key. -/
theorem assign_eq_ok {qualifier filename : String} {spec : CycleSpec} {readKey : String}
    {change : Change FileId} (h : c.assign call qualifier filename spec readKey = .ok change) :
    ∃ set ∈ c.sets, ∃ cycle ∈ set.cycles, FileSet.visible call.client cycle = true ∧
      SetName.ofTexts qualifier filename = .ok set.name ∧ Opens set.lead.readKey readKey ∧
      change = {
        catalog := c.put (set.modify cycle.file fun d => d.assign call.client call.now)
        touched := set.name
        answer := cycle.file
        notes := [.assigned call.client cycle.file] } := by
  simp only [assign, bind_eq_ok, pure_eq_ok] at h
  obtain ⟨-, -, name, hname, spec', -, key, hkey, set, hset, _, hcheck, cycle, hcycle, -, -, rfl⟩ := h
  obtain ⟨hmem, rfl⟩ := find_eq_ok hset
  obtain ⟨hin, hvisible⟩ := resolve_eq_ok hcycle
  exact ⟨set, hmem, cycle, hin, hvisible, hname, ⟨key, hkey, checkKey_eq_ok hcheck⟩, rfl⟩

theorem steps_assign {qualifier filename : String} {spec : CycleSpec} {readKey : String}
    {change : Change FileId} (hfiles : ∀ set ∈ c.sets, (set.cycles.map FileCycle.file).Nodup)
    (h : c.assign call qualifier filename spec readKey = .ok change) : change.Steps call c := by
  obtain ⟨set, hset, cycle, hcycle, hvisible, -, -, rfl⟩ := assign_eq_ok h
  refine ⟨_, _, _, .change hset hcycle (.assign hvisible), rfl, ?_⟩
  rw [modify_eq (hfiles set hset) hcycle]

/-- A cycle is cataloged by its creator. -/
theorem catalog_eq_ok {file : FileId} {change : Change Unit}
    (h : c.catalog call file = .ok change) :
    ∃ set ∈ c.sets, ∃ cycle ∈ set.cycles, cycle.file = file ∧ cycle.item.state = .cataloging ∧
      cycle.creator = some call.client ∧
      change = {
        catalog := c.put (set.modify cycle.file fun _ => cataloged cycle call.now).refresh
        touched := set.name
        answer := () } := by
  simp only [Catalog.catalog, bind_eq_ok, pure_eq_ok] at h
  obtain ⟨-, -, ⟨set, cycle⟩, hfound, _, hcreator, -, -, rfl⟩ := h
  obtain ⟨hset, hcycle, rfl⟩ := locate_eq_ok hfound
  obtain ⟨hstate, hclient⟩ := checkCreator_eq_ok hcreator
  exact ⟨set, hset, cycle, hcycle, rfl, hstate, hclient, rfl⟩

theorem steps_catalog {file : FileId} {change : Change Unit}
    (h : c.catalog call file = .ok change) : change.Steps call c := by
  obtain ⟨set, hset, cycle, hcycle, -, hstate, hclient, rfl⟩ := catalog_eq_ok h
  exact ⟨_, _, _, .catalog hset hcycle hstate (.catalog hclient), rfl, rfl⟩

/-- A cycle is aborted by its creator. -/
theorem abort_eq_ok {file : FileId} {change : Change Unit} (h : c.abort call file = .ok change) :
    ∃ set ∈ c.sets, ∃ cycle ∈ set.cycles, cycle.file = file ∧ cycle.item.state = .cataloging ∧
      cycle.creator = some call.client ∧
      change = {
        catalog := c.drop set cycle
        touched := set.name
        answer := ()
        notes := cycle.departure
        moved := some (.dropped file) } := by
  simp only [Catalog.abort, bind_eq_ok, pure_eq_ok] at h
  obtain ⟨-, -, ⟨set, cycle⟩, hfound, _, hcreator, -, -, rfl⟩ := h
  obtain ⟨hset, hcycle, rfl⟩ := locate_eq_ok hfound
  obtain ⟨hstate, hclient⟩ := checkCreator_eq_ok hcreator
  exact ⟨set, hset, cycle, hcycle, rfl, hstate, hclient, rfl⟩

theorem steps_abort {file : FileId} {change : Change Unit}
    (h : c.abort call file = .ok change) : change.Steps call c := by
  obtain ⟨set, hset, cycle, hcycle, -, -, -, rfl⟩ := abort_eq_ok h
  exact ⟨_, _, _, .drop hset hcycle, rfl, rfl⟩

/-- A live cycle is deleted under the write key of a set that is not guarded, at once if nobody has
the cycle assigned. -/
theorem delete_eq_ok {qualifier filename : String} {spec : CycleSpec} {writeKey : String}
    {change : Change Unit} (h : c.delete call qualifier filename spec writeKey = .ok change) :
    ∃ set ∈ c.sets, ∃ cycle ∈ set.cycles, cycle.item.state = .live ∧
      SetName.ofTexts qualifier filename = .ok set.name ∧ Opens set.lead.writeKey writeKey ∧
      set.lead.guarded = false ∧ change = {
        catalog :=
          if cycle.item.assigned = 0 then c.drop set cycle
          else c.put (set.modify cycle.file fun _ =>
            { cycle with item := cycle.item.withState .dropping })
        touched := set.name
        answer := ()
        notes := if cycle.item.assigned = 0 then cycle.departure else []
        moved := if cycle.item.assigned = 0 then some (.dropped cycle.file) else none } := by
  simp only [delete, bind_eq_ok, pure_eq_ok, ite_throw_eq_ok] at h
  obtain ⟨-, -, name, hname, spec', -, key, hkey, set, hset, _, hcheck, hguard, cycle, hcycle, hlive,
    -, -, rfl⟩ := h
  obtain ⟨hmem, rfl⟩ := find_eq_ok hset
  obtain ⟨hin, -⟩ := resolve_eq_ok hcycle
  exact ⟨set, hmem, cycle, hin, Decidable.not_not.1 hlive, hname, ⟨key, hkey, checkKey_eq_ok hcheck⟩,
    Bool.eq_false_iff.2 hguard, rfl⟩

theorem steps_delete {qualifier filename : String} {spec : CycleSpec} {writeKey : String}
    {change : Change Unit} (h : c.delete call qualifier filename spec writeKey = .ok change) :
    change.Steps call c := by
  obtain ⟨set, hset, cycle, hcycle, hlive, -, -, -, rfl⟩ := delete_eq_ok h
  by_cases hheld : cycle.item.assigned = 0
  · refine ⟨_, _, _, .drop hset hcycle, rfl, ?_⟩
    simp only [if_pos hheld]
    rfl
  · refine ⟨_, _, _, .change hset hcycle (.delete hlive), rfl, ?_⟩
    simp only [if_neg hheld]

/-- A cycle is released by a client that has it assigned. -/
theorem release_eq_ok {file : FileId} {share : Share} {change : Change Unit}
    (h : c.release call file share = .ok change) :
    ∃ set ∈ c.sets, ∃ cycle ∈ set.cycles, cycle.file = file ∧ cycle.held call.client ≠ 0 ∧
      change = {
        catalog := c.settle call set (released cycle call share)
        touched := set.name
        answer := ()
        notes := releaseNotes call (released cycle call share)
        moved := releaseMove (released cycle call share) } := by
  simp only [release, bind_eq_ok, pure_eq_ok, ite_throw_eq_ok] at h
  obtain ⟨-, -, ⟨set, cycle⟩, hfound, hheld, -, -, rfl⟩ := h
  obtain ⟨hset, hcycle, rfl⟩ := locate_eq_ok hfound
  exact ⟨set, hset, cycle, hcycle, rfl, hheld, rfl⟩

/-- What a release makes of the catalog: the cycle goes if it was to be dropped and nobody has it left,
it is cataloged if the caller has it no more, and it stays in its set otherwise. -/
theorem settle_cases (c : Catalog) (call : Call) (set : FileSet) (cycle : FileCycle) :
    (cycle.item.state = .dropping ∧ cycle.item.assigned = 0) ∧
        c.settle call set cycle = c.drop set cycle ∨
      (cycle.item.state = .cataloging ∧ cycle.held call.client = 0) ∧
        c.settle call set cycle =
          c.put (set.modify cycle.file fun _ => cataloged cycle call.now).refresh ∨
      (¬(cycle.item.state = .dropping ∧ cycle.item.assigned = 0) ∧
          ¬(cycle.item.state = .cataloging ∧ cycle.held call.client = 0)) ∧
        c.settle call set cycle = c.put (set.modify cycle.file fun _ => cycle) := by
  unfold settle
  cases cycle.item.state with
  | cataloging => by_cases hlast : cycle.held call.client = 0 <;> simp [hlast]
  | dropping => by_cases hlast : cycle.item.assigned = 0 <;> simp [hlast]
  | live => simp
  | dropped => simp

theorem steps_release {file : FileId} {share : Share} {change : Change Unit}
    (h : c.release call file share = .ok change) : change.Steps call c := by
  obtain ⟨set, hset, cycle, hcycle, -, hheld, rfl⟩ := release_eq_ok h
  obtain ⟨-, heq⟩ | ⟨⟨hstate, -⟩, heq⟩ | ⟨-, heq⟩ :=
    settle_cases c call set (released cycle call share)
  · exact ⟨_, _, _, .drop hset hcycle, rfl, heq⟩
  · exact ⟨_, _, _, .catalog hset hcycle hstate (.release share hheld), rfl, heq⟩
  · exact ⟨_, _, _, .change hset hcycle (.release share hheld), rfl, heq⟩

theorem checkAllocation_eq_ok {file : FileId} {first count : Nat} {a : Allocation}
    (h : c.checkAllocation call file first count = .ok a) :
    a.set ∈ c.sets ∧ a.cycle ∈ a.set.cycles ∧ a.cycle.file = file ∧
      a.cycle.held call.client ≠ 0 ∧ (tracksIn a.gaps).length ≤ c.space.free ∧
      Addressable a.cycle ⟨first, count⟩ ∧ a.gaps = a.cycle.item.table.gaps ⟨first, count⟩ ∧
      a.granules = granulesUpTo (Region.limit ⟨first, count⟩)
        (c.config.tracksPerGranule a.cycle.item.characteristics.granularity) ∧
      a.granules ≤ a.cycle.item.maxGranules := by
  simp only [checkAllocation, bind_eq_ok, ite_throw_eq_ok, pure_eq_ok] at h
  obtain ⟨-, -, ⟨set, cycle⟩, hfound, region, hregion, hgranules, -, -, hfree, rfl⟩ := h
  obtain ⟨hset, hcycle, hfile⟩ := locate_eq_ok hfound
  obtain ⟨hheld, rfl, haddressable⟩ := checkTracks_eq_ok hregion
  refine ⟨hset, hcycle, hfile, hheld, ?_, haddressable, rfl, rfl, Nat.not_lt.1 hgranules⟩
  rw [length_tracksIn]
  exact Nat.not_lt.1 hfree

/-- An allocation that succeeds backs the region that was asked for, of a cycle that the caller has
assigned. -/
theorem allocateTracks_eq_ok {file : FileId} {first count : Nat} {change : Change Unit}
    (h : c.allocateTracks call file first count = .ok change) :
    ∃ set ∈ c.sets, ∃ cycle ∈ set.cycles, cycle.file = file ∧ cycle.held call.client ≠ 0 ∧
      ∃ (space : FreeSpace) (table : ExtentTable),
        Addressable cycle ⟨first, count⟩ ∧
        granulesUpTo (Region.limit ⟨first, count⟩)
          (c.config.tracksPerGranule cycle.item.characteristics.granularity) ≤
            cycle.item.maxGranules ∧
        fill c.space cycle.item.table (cycle.item.table.gaps ⟨first, count⟩) =
          (none, space, table) ∧
        change = {
          catalog := { c with space := space }.put (set.modify cycle.file fun _ =>
            grown cycle table (granulesUpTo (Region.limit ⟨first, count⟩)
              (c.config.tracksPerGranule cycle.item.characteristics.granularity)) call.now)
          touched := set.name
          answer := () } := by
  unfold allocateTracks at h
  cases hcheck : c.checkAllocation call file first count with
  | error f =>
      rw [hcheck] at h
      cases h
  | ok a =>
      obtain ⟨set, cycle, granules, gaps⟩ := a
      obtain ⟨hset, hcycle, hfile, hheld, -, hregion, hgaps, hgranules, hmax⟩ :=
        checkAllocation_eq_ok hcheck
      dsimp only at hset hcycle hfile hheld hregion hgaps hgranules hmax
      subst hfile hgaps hgranules
      rw [hcheck] at h
      dsimp only at h
      split at h
      · cases h
      · rename_i space table hfill
        cases h
        exact ⟨set, hset, cycle, hcycle, rfl, hheld, space, table, hregion, hmax, hfill, rfl⟩

theorem steps_allocateTracks {file : FileId} {first count : Nat} {change : Change Unit}
    (h : c.allocateTracks call file first count = .ok change) : change.Steps call c := by
  obtain ⟨set, hset, cycle, hcycle, -, -, space, table, hregion, hmax, hfill, rfl⟩ :=
    allocateTracks_eq_ok h
  exact ⟨_, _, _, .grow hset hcycle hregion hmax hfill, rfl, rfl⟩

/-- An allocation is given up only by its checks: the pack has room for every gap once it has been
found to have enough free tracks for all. -/
theorem allocateTracks_eq_error {file : FileId} {first count : Nat} {halted : Halted}
    (h : c.allocateTracks call file first count = .error halted) :
    ∃ f, c.checkAllocation call file first count = .error f ∧ halted = ⟨f, c⟩ := by
  unfold allocateTracks at h
  cases hcheck : c.checkAllocation call file first count with
  | error f =>
      rw [hcheck] at h
      cases h
      exact ⟨f, rfl, rfl⟩
  | ok a =>
      obtain ⟨-, -, -, -, hfree, -⟩ := checkAllocation_eq_ok hcheck
      rw [hcheck] at h
      dsimp only at h
      split at h
      · rename_i gap space table hfill
        have hall : (fill c.space a.cycle.item.table a.gaps).1 = none := fill_of_length_le hfree
        rw [hfill] at hall
        cases hall
      · cases h

/-- **An allocation that is given up leaves the catalog as it was.** -/
theorem catalog_halted {file : FileId} {first count : Nat} {halted : Halted}
    (h : c.allocateTracks call file first count = .error halted) : halted.catalog = c := by
  obtain ⟨f, -, rfl⟩ := allocateTracks_eq_error h
  rfl

/-- What is recorded as written is of a cycle that the caller has assigned. -/
theorem markWritten_eq_ok {file : FileId} {first count : Nat} {change : Change Unit}
    (h : c.markWritten call file first count = .ok change) :
    ∃ set ∈ c.sets, ∃ cycle ∈ set.cycles, cycle.file = file ∧ cycle.held call.client ≠ 0 ∧
      ∃ region, Addressable cycle region ∧ cycle.item.table.covers region = true ∧ change = {
        catalog := c.put (set.modify cycle.file fun _ =>
          { cycle with item := writtenItem cycle.item region.limit call.now })
        touched := set.name
        answer := () } := by
  simp only [markWritten, bind_eq_ok] at h
  obtain ⟨-, -, ⟨set, cycle⟩, hfound, region, hregion, h⟩ := h
  obtain ⟨hset, hcycle, rfl⟩ := locate_eq_ok hfound
  obtain ⟨hheld, -, haddressable⟩ := checkTracks_eq_ok hregion
  split at h
  · rename_i hcovers
    obtain ⟨-, -, h⟩ := bind_eq_ok.1 h
    cases h
    exact ⟨set, hset, cycle, hcycle, rfl, hheld, region, haddressable, hcovers, rfl⟩
  · cases h

theorem steps_markWritten {file : FileId} {first count : Nat} {change : Change Unit}
    (h : c.markWritten call file first count = .ok change) : change.Steps call c := by
  obtain ⟨set, hset, cycle, hcycle, -, -, region, hregion, hcovers, rfl⟩ := markWritten_eq_ok h
  exact ⟨_, _, _, .change hset hcycle (.write region hregion hcovers), rfl, rfl⟩

/-- A guard is set by anybody, and taken off under the write key. -/
theorem setGuard_eq_ok {qualifier filename : String} {guarded : Bool} {writeKey : String}
    {change : Change Unit} (h : c.setGuard call qualifier filename guarded writeKey = .ok change) :
    ∃ set ∈ c.sets, SetName.ofTexts qualifier filename = .ok set.name ∧
      (guarded = false → Opens set.lead.writeKey writeKey) ∧ change = {
        catalog := c.put (guardedSet set guarded)
        touched := set.name
        answer := () } := by
  simp only [setGuard, bind_eq_ok] at h
  obtain ⟨-, -, name, hname, key, hkey, set, hset, h⟩ := h
  obtain ⟨hmem, rfl⟩ := find_eq_ok hset
  refine ⟨set, hmem, hname, ?_⟩
  cases guarded with
  | true =>
      obtain ⟨-, -, h⟩ := bind_eq_ok.1 h
      cases h
      exact ⟨nofun, rfl⟩
  | false =>
      obtain ⟨_, hcheck, h⟩ := bind_eq_ok.1 h
      obtain ⟨-, -, h⟩ := bind_eq_ok.1 h
      cases h
      exact ⟨fun _ => ⟨key, hkey, checkKey_eq_ok hcheck⟩, rfl⟩

theorem steps_setGuard {qualifier filename : String} {guarded : Bool} {writeKey : String}
    {change : Change Unit} (h : c.setGuard call qualifier filename guarded writeKey = .ok change) :
    change.Steps call c := by
  obtain ⟨set, hset, -, -, rfl⟩ := setGuard_eq_ok h
  exact ⟨_, _, _, .guard hset guarded, rfl, rfl⟩

/-- A creation that succeeds enters a cycle into the file set that it is for. -/
theorem create_eq_ok {r : Creation} {change : Change FileId} (h : c.create call r = .ok change) :
    ∃ set number newest regions space, c.setFor r call.client = .ok set ∧
      set.chooseNew r.cycle = .ok (number, newest) ∧
      r.initialReserve * c.config.tracksPerGranule r.granularity ≤ Word.maxValue ∧
      c.space.allocate (r.initialReserve * c.config.tracksPerGranule r.granularity) =
        some (regions, space) ∧
      change = c.enter call r set number newest regions space := by
  simp only [create, bind_eq_ok, ite_throw_eq_ok] at h
  obtain ⟨-, -, htracks, set, hset, ⟨number, newest⟩, hnumber, -, -, -, h⟩ := h
  split at h
  · rename_i regions space hspace
    cases h
    exact ⟨set, number, newest, regions, space, hset, hnumber, Nat.not_lt.1 htracks, hspace, rfl⟩
  · cases h

theorem steps_create {r : Creation} {change : Change FileId} (hr : WellFormed c.config r)
    (h : c.create call r = .ok change) : change.Steps call c := by
  obtain ⟨set, number, newest, regions, space, hset, hnumber, htracks, hspace, rfl⟩ :=
    create_eq_ok h
  have hname : set.name = r.name := setFor_eq_ok hset
  refine ⟨_, _, _, .enter hr hset hnumber htracks hspace, ?_, rfl⟩
  cases newest <;> exact hname.symm

theorem createTape_eq_ok {r : TapeRequest} {change : Change FileId}
    (h : c.createTape call r = .ok change) :
    ∃ creation, WellFormed c.config creation ∧ creation.state = .cataloging ∧
      SetName.ofTexts r.qualifier r.filename = .ok creation.name ∧ creation.cycle = r.cycle ∧
      NameRole.key.normalize r.readKey = .ok creation.readKey ∧
      NameRole.key.normalize r.writeKey = .ok creation.writeKey ∧ c.create call creation = .ok change := by
  simp only [createTape, bind_eq_ok, ite_throw_eq_ok] at h
  obtain ⟨hrange, name, hname, cycle, hcycle, readKey, hread, writeKey, hwrite, h⟩ := h
  obtain ⟨hqualifier, hfilename⟩ := ofTexts_eq_ok hname
  obtain ⟨rfl, hvalid⟩ := check_eq_ok hcycle
  refine ⟨_, ⟨hqualifier, hfilename, fits_of_normalize hread, fits_of_normalize hwrite, hvalid,
    .tape rfl rfl ?_ rfl⟩, rfl, hname, rfl, hread, hwrite, h⟩
  by_cases hzero : r.maxCycles = 0
  · exact Or.inl (if_pos hzero)
  · refine Or.inr ?_
    simp only [if_neg hzero]
    omega

theorem createDisk_eq_ok {r : DiskRequest} {change : Change FileId}
    (h : c.createDisk call r = .ok change) :
    ∃ creation, WellFormed c.config creation ∧ creation.state = .live ∧
      SetName.ofTexts r.qualifier r.filename = .ok creation.name ∧ creation.cycle = r.cycle ∧
      creation.readKey = "" ∧ creation.writeKey = "" ∧ c.create call creation = .ok change := by
  simp only [createDisk, bind_eq_ok] at h
  obtain ⟨name, hname, cycle, hcycle, reserve, hreserve, maximum, hmaximum, h⟩ := h
  obtain ⟨hqualifier, hfilename⟩ := ofTexts_eq_ok hname
  have hfits : NameRole.key.Fits "".toList := by decide
  -- the reserve is compared with the maximum only when the cycle is about to be entered
  have hle := reserve_le_of_create h
  obtain ⟨rfl, hvalid⟩ := check_eq_ok hcycle
  exact ⟨_, ⟨hqualifier, hfilename, hfits, hfits, hvalid,
    .disk rfl rfl rfl hle (checkGranules_eq_ok hmaximum)⟩, rfl, hname, rfl, rfl, rfl, h⟩

theorem steps_createTape {r : TapeRequest} {change : Change FileId}
    (h : c.createTape call r = .ok change) : change.Steps call c := by
  obtain ⟨creation, hr, -, -, -, -, -, hcreate⟩ := createTape_eq_ok h
  exact steps_create hr hcreate

theorem steps_createDisk {r : DiskRequest} {change : Change FileId}
    (h : c.createDisk call r = .ok change) : change.Steps call c := by
  obtain ⟨creation, hr, -, -, -, -, -, hcreate⟩ := createDisk_eq_ok h
  exact steps_create hr hcreate

end Operations

end Catalog

end FileDirectory
