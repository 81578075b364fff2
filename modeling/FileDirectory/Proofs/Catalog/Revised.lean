/-
**What an operation does to a file set.**

An operation touches one file set, which the request names or in which it names a cycle, and puts it
back under the same keys.  Where the set has keys, the request is one that they permit: a cycle is
added under both, assigned under the read key, and deleted under the write key of a set that is not
guarded; the guard is taken off under the write key.

Main definitions:

* `FileDirectory.Request.Concerns` — a request is about a file set;
* `FileDirectory.Request.Presents`, `FileDirectory.Request.Unlocks` — a request presents a key, if
  there is one;
* `FileDirectory.Request.Permitted` — the keys and the guard of a set permit a request;
* `FileDirectory.Catalog.Revises` — what a request may put in the place of a file set.

Main results:

* `FileDirectory.Catalog.Asked.revises` — every change that is asked for is such a revision;
* `FileDirectory.Catalog.Asked.of_touched`, `FileDirectory.Catalog.Asked.mem_sets_iff` — the set that
  is touched permits the request, and all others stay as they are;
* `FileDirectory.Catalog.Asked.lead_eq` — what stays of the lead item of a set.
-/

import FileDirectory.Proofs.Catalog.Moved

set_option autoImplicit false

namespace FileDirectory

/-! ### What a request says -/

namespace Request

/-- Whether a request is about a file set, which it names or in which it names a cycle. -/
def Concerns (set : FileSet) : Request → Prop
  | .createTape r => SetName.ofTexts r.qualifier r.filename = .ok set.name
  | .createDisk r => SetName.ofTexts r.qualifier r.filename = .ok set.name
  | .assign qualifier filename _ _ | .delete qualifier filename _ _
  | .setGuard qualifier filename _ _ | .setInfo qualifier filename =>
    SetName.ofTexts qualifier filename = .ok set.name
  | .catalog file | .abort file | .release file | .allocateTracks file _ _ | .markWritten file _ _
  | .cycleInfo file => file ∈ set.files
  | .releaseAll | .listSets => True

/-- The key that the caller passes in a role. -/
def key? (r : Request) (role : KeyRole) : Option String :=
  match role, r with
  | .read, .createTape r => some r.readKey
  | .read, .assign _ _ _ readKey => some readKey
  | .write, .createTape r => some r.writeKey
  | .write, .delete _ _ _ writeKey => some writeKey
  | .write, .setGuard _ _ _ writeKey => some writeKey
  | _, _ => none

/-- The caller presents a key in a role: what it passes is the key, with capital letters. -/
def Presents (role : KeyRole) (key : String) (r : Request) : Prop :=
  ∃ text ∈ r.key? role, NameRole.key.normalize text = .ok key

/-- The caller presents the key in a role that is stored, if one is. -/
def Unlocks (role : KeyRole) (stored : String) (r : Request) : Prop :=
  stored = "" ∨ r.Presents role stored

/-- What a request makes of the guard of a file set. -/
def guard? : Request → Option Bool
  | .setGuard _ _ guarded _ => some guarded
  | _ => none

/-- The keys and the guard of a file set permit a request. -/
structure Permitted (set : FileSet) (r : Request) : Prop where
  /-- A cycle is added under both keys. -/
  creates : r.creates ≠ none →
    r.Unlocks .read set.lead.readKey ∧ r.Unlocks .write set.lead.writeKey
  /-- A cycle is assigned under the read key. -/
  assigns : r.isAssign = true → r.Unlocks .read set.lead.readKey
  /-- A cycle is deleted under the write key, and not while the set is guarded. -/
  deletes : r.isDelete = true → r.Unlocks .write set.lead.writeKey ∧ set.lead.guarded = false
  /-- The guard is taken off under the write key. -/
  unguards : r.guard? = some false → r.Unlocks .write set.lead.writeKey

variable {r : Request} {role : KeyRole} {stored text key : String}

theorem unlocks_of_accepted (hkey : r.key? role = some text)
    (hnormal : NameRole.key.normalize text = .ok key) (haccepted : keyAccepted stored key = true) :
    r.Unlocks role stored := by
  unfold keyAccepted at haccepted
  simp only [Bool.or_eq_true, decide_eq_true_eq] at haccepted
  rcases haccepted with hnone | rfl
  · exact Or.inl hnone
  · exact Or.inr ⟨text, hkey, hnormal⟩

/-- Only where there is no key is no key accepted. -/
theorem unlocks_of_accepted_empty (hnone : key = "") (haccepted : keyAccepted stored key = true) :
    r.Unlocks role stored := by
  unfold keyAccepted at haccepted
  simp only [hnone, Bool.or_self, decide_eq_true_eq] at haccepted
  exact Or.inl haccepted

theorem unlocks_of_opens (hkey : r.key? role = some text) (h : Catalog.Opens stored text) :
    r.Unlocks role stored := by
  obtain ⟨key, hnormal, haccepted⟩ := h
  exact unlocks_of_accepted hkey hnormal haccepted

/-- A request that does nothing under a key is permitted. -/
theorem permitted_of_keyless {set : FileSet} (hcreates : r.creates = none)
    (hassigns : r.isAssign = false) (hdeletes : r.isDelete = false) (hguard : r.guard? = none) :
    r.Permitted set where
  creates := fun h => absurd hcreates h
  assigns := by simp [hassigns]
  deletes := by simp [hdeletes]
  unguards := by simp [hguard]

end Request

namespace Catalog

variable {call : Call} {c : Catalog} {r : Request} {set after : FileSet}

/-! ### Revisions -/

/-- What a request may put in the place of a file set that there is, or of a new one. -/
structure Revises (c : Catalog) (r : Request) (set after : FileSet) : Prop where
  available : c.Available set
  concerns : r.Concerns set
  permitted : r.Permitted set
  /-- Only the highest cycle and the guard may change. -/
  lead : after.lead = { set.lead with
    highest := after.lead.highest
    plusOneExists := after.lead.plusOneExists
    guarded := after.lead.guarded }
  guarded : after.lead.guarded = set.lead.guarded ∨ r.guard? = some after.lead.guarded

/-- A revision keeps the name and the keys of the set. -/
theorem Revises.keeps (h : Revises c r set after) : after.name = set.name ∧
    after.lead.readKey = set.lead.readKey ∧ after.lead.writeKey = set.lead.writeKey := by
  unfold FileSet.name
  rw [h.lead]
  exact ⟨rfl, rfl, rfl⟩

/-- A set of the catalog whose lead item stays the same but for the note of its next cycle. -/
theorem revises_of_mem (hset : set ∈ c.sets)
    (hlead : after.lead = { set.lead with plusOneExists := after.lead.plusOneExists })
    (hconcerns : r.Concerns set) (hpermitted : r.Permitted set) : Revises c r set after where
  available := Or.inl hset
  concerns := hconcerns
  permitted := hpermitted
  lead := by
    rw [hlead]
  guarded := Or.inl (by rw [hlead])

/-- A creation goes into a set whose keys accept its own, or which it makes. -/
theorem accepted_of_setFor {creation : Creation} {client : Client}
    (h : c.setFor creation client = .ok set) :
    keyAccepted set.lead.readKey creation.readKey = true ∧
      keyAccepted set.lead.writeKey creation.writeKey = true := by
  rcases find?_of_setFor h with ⟨-, hcheck⟩ | ⟨-, rfl⟩
  · exact (checkSet_eq_ok hcheck).2
  · simp [keyAccepted, Creation.newSet]

/-- A creation revises the set that it goes into. -/
theorem revises_create {creation : Creation} {change : Change FileId}
    (hconcerns : ∀ set : FileSet, set.name = creation.name → r.Concerns set)
    (hassigns : r.isAssign = false) (hdeletes : r.isDelete = false) (hguard : r.guard? = none)
    (hread : ∀ stored, keyAccepted stored creation.readKey = true → r.Unlocks .read stored)
    (hwrite : ∀ stored, keyAccepted stored creation.writeKey = true → r.Unlocks .write stored)
    (h : c.create call creation = .ok change) :
    ∃ set after space last, change.catalog = { c with space := space, lastFile := last }.put after ∧
      change.touched = set.name ∧ Revises c r set after := by
  obtain ⟨set, number, newest, regions, space, hset, -, -, -, rfl⟩ := create_eq_ok h
  have hname := setFor_eq_ok hset
  obtain ⟨hreadKey, hwriteKey⟩ := accepted_of_setFor hset
  refine ⟨set, set.added number newest _, space, c.lastFile + 1, rfl, hname.symm,
    ⟨available_of_setFor hset, hconcerns set hname, ?_, ?_, ?_⟩⟩
  · exact {
      creates := fun _ => ⟨hread _ hreadKey, hwrite _ hwriteKey⟩
      assigns := by simp [hassigns]
      deletes := by simp [hdeletes]
      unguards := by simp [hguard] }
  · cases newest <;> rfl
  · exact Or.inl (by cases newest <;> rfl)

/-- A release puts back the set of the cycle. -/
theorem settle_eq_put (c : Catalog) (call : Call) (set : FileSet) (cycle : FileCycle) :
    ∃ after space, after.lead = { set.lead with plusOneExists := after.lead.plusOneExists } ∧
      c.settle call set cycle = { c with space := space }.put after := by
  obtain ⟨-, heq⟩ | ⟨-, heq⟩ | ⟨-, heq⟩ := settle_cases c call set cycle
  · exact ⟨(set.erase cycle.file).refresh, releaseAll c.space cycle.item.table.packRegions, rfl, heq⟩
  · exact ⟨(set.modify cycle.file fun _ => cataloged cycle call.now).refresh, c.space, rfl, heq⟩
  · exact ⟨set.modify cycle.file fun _ => cycle, c.space, rfl, heq⟩

/-- Releasing a cycle needs no key. -/
theorem permitted_of_share {file : FileId} {share : Share} (h : r.share file = some share) :
    r.Permitted set := by
  cases r with
  | release => exact Request.permitted_of_keyless rfl rfl rfl rfl
  | releaseAll => exact Request.permitted_of_keyless rfl rfl rfl rfl
  | _ => cases h

theorem concerns_of_share {file : FileId} {share : Share} (h : r.share file = some share)
    (hfile : file ∈ set.files) : r.Concerns set := by
  cases r with
  | release other =>
      unfold Request.share at h
      dsimp only at h
      split at h
      · rename_i heq
        exact heq ▸ hfile
      · cases h
  | releaseAll => trivial
  | _ => cases h

/-- **Every change that is asked for is a revision** of the file set that it touches. -/
theorem Asked.revises {α : Type} {change : Change α} (h : Asked call c r change) :
    ∃ set after space last, change.catalog = { c with space := space, lastFile := last }.put after ∧
      change.touched = set.name ∧ Revises c r set after := by
  cases h with
  | createTape h =>
      obtain ⟨creation, -, -, hname, -, hread, hwrite, hcreate⟩ := createTape_eq_ok h
      exact revises_create (fun _ heq => hname.trans (congrArg _ heq.symm)) rfl rfl rfl
        (fun _ => Request.unlocks_of_accepted rfl hread)
        (fun _ => Request.unlocks_of_accepted rfl hwrite) hcreate
  | createDisk h =>
      obtain ⟨creation, -, -, hname, -, hread, hwrite, hcreate⟩ := createDisk_eq_ok h
      exact revises_create (fun _ heq => hname.trans (congrArg _ heq.symm)) rfl rfl rfl
        (fun _ => Request.unlocks_of_accepted_empty hread)
        (fun _ => Request.unlocks_of_accepted_empty hwrite) hcreate
  | assign h =>
      obtain ⟨set, hset, cycle, hcycle, -, hname, hopens, rfl⟩ := assign_eq_ok h
      refine ⟨set, _, c.space, c.lastFile, rfl, rfl, revises_of_mem hset rfl hname ?_⟩
      exact {
        creates := fun hcreates => absurd rfl hcreates
        assigns := fun _ => Request.unlocks_of_opens rfl hopens
        deletes := nofun
        unguards := nofun }
  | catalog h =>
      obtain ⟨set, hset, cycle, hcycle, rfl, -, -, rfl⟩ := catalog_eq_ok h
      exact ⟨set, _, c.space, c.lastFile, rfl, rfl, revises_of_mem hset rfl
        (List.mem_map_of_mem hcycle) (Request.permitted_of_keyless rfl rfl rfl rfl)⟩
  | abort h =>
      obtain ⟨set, hset, cycle, hcycle, rfl, -, -, rfl⟩ := abort_eq_ok h
      exact ⟨set, (set.erase cycle.file).refresh, _, c.lastFile, rfl, rfl, revises_of_mem hset rfl
        (List.mem_map_of_mem hcycle) (Request.permitted_of_keyless rfl rfl rfl rfl)⟩
  | @delete qualifier filename spec writeKey _ h =>
      obtain ⟨set, hset, cycle, hcycle, -, hname, hopens, hguard, rfl⟩ := delete_eq_ok h
      have hpermitted : Request.Permitted set (.delete qualifier filename spec writeKey) := {
        creates := fun hcreates => absurd rfl hcreates
        assigns := nofun
        deletes := fun _ => ⟨Request.unlocks_of_opens rfl hopens, hguard⟩
        unguards := nofun }
      by_cases hheld : cycle.item.assigned = 0
      · simp only [if_pos hheld]
        exact ⟨set, (set.erase cycle.file).refresh, _, c.lastFile, rfl, rfl,
          revises_of_mem hset rfl hname hpermitted⟩
      · simp only [if_neg hheld]
        exact ⟨set, _, c.space, c.lastFile, rfl, rfl, revises_of_mem hset rfl hname hpermitted⟩
  | release hr h =>
      obtain ⟨set, hset, cycle, hcycle, rfl, -, rfl⟩ := release_eq_ok h
      obtain ⟨after, space, hlead, hput⟩ := settle_eq_put c _ set (released cycle _ _)
      exact ⟨set, after, space, c.lastFile, hput, rfl, revises_of_mem hset hlead
        (concerns_of_share hr (List.mem_map_of_mem hcycle)) (permitted_of_share hr)⟩
  | allocateTracks h =>
      obtain ⟨set, hset, cycle, hcycle, rfl, -, space, table, -, -, -, rfl⟩ :=
        allocateTracks_eq_ok h
      exact ⟨set, _, space, c.lastFile, rfl, rfl, revises_of_mem hset rfl
        (List.mem_map_of_mem hcycle) (Request.permitted_of_keyless rfl rfl rfl rfl)⟩
  | markWritten h =>
      obtain ⟨set, hset, cycle, hcycle, rfl, -, region, -, -, rfl⟩ := markWritten_eq_ok h
      exact ⟨set, _, c.space, c.lastFile, rfl, rfl, revises_of_mem hset rfl
        (List.mem_map_of_mem hcycle) (Request.permitted_of_keyless rfl rfl rfl rfl)⟩
  | @setGuard qualifier filename guarded writeKey _ h =>
      obtain ⟨set, hset, hname, hopens, rfl⟩ := setGuard_eq_ok h
      refine ⟨set, guardedSet set guarded, c.space, c.lastFile, rfl, rfl,
        ⟨Or.inl hset, hname, ?_, rfl, Or.inr rfl⟩⟩
      exact {
        creates := fun hcreates => absurd rfl hcreates
        assigns := nofun
        deletes := nofun
        unguards := fun hguard =>
          Request.unlocks_of_opens rfl (hopens (Option.some.inj hguard)) }

/-! ### What becomes of the sets that there were -/

variable {α : Type} {change : Change α}

/-- The set that a request touches is one that it is about and that permits it. -/
theorem Asked.of_touched (h : Asked call c r change) (hc : c.Indexed) (hset : set ∈ c.sets)
    (htouched : change.touched = set.name) : r.Concerns set ∧ r.Permitted set := by
  obtain ⟨old, after, space, last, -, htouches, hrevises⟩ := h.revises
  have hold : old = set := by
    rcases hrevises.available with hin | ⟨-, hnone⟩
    · exact hc.ordered.eq_of_name_eq hin hset (htouches.symm.trans htouched)
    · exact absurd (htouched.symm.trans htouches) (find?_eq_none_iff.1 hnone set hset)
  subst hold
  exact ⟨hrevises.concerns, hrevises.permitted⟩

/-- All other sets stay as they are. -/
theorem Asked.mem_sets_iff (h : Asked call c r change) (hc : c.Indexed)
    (hne : set.name ≠ change.touched) : set ∈ change.catalog.sets ↔ set ∈ c.sets :=
  (h.steps hc).mem_sets_iff hc hne

/-- **What stays of the lead item** of a set that is there before and after. -/
theorem Asked.lead_eq (h : Asked call c r change) (hc : c.Indexed) (hset : set ∈ c.sets)
    (hafter : after ∈ change.catalog.sets) (hname : after.name = set.name) :
    after.lead.readKey = set.lead.readKey ∧ after.lead.writeKey = set.lead.writeKey ∧
      (after.lead.guarded = set.lead.guarded ∨ r.guard? = some after.lead.guarded) := by
  obtain ⟨old, new, space, last, hput, htouched, hrevises⟩ := h.revises
  obtain ⟨hnewName, hread, hwrite⟩ := hrevises.keeps
  rw [hput] at hafter
  rcases (mem_sets_put (c := { c with space := space, lastFile := last }) hc.ordered).1 hafter with
    ⟨rfl, -⟩ | ⟨hin, -⟩
  · have hold : old = set := by
      rcases hrevises.available with hin | ⟨-, hnone⟩
      · exact hc.ordered.eq_of_name_eq hin hset (hnewName.symm.trans hname)
      · exact absurd (hname.symm.trans hnewName) (find?_eq_none_iff.1 hnone set hset)
    subst hold
    exact ⟨hread, hwrite, hrevises.guarded⟩
  · obtain rfl := hc.ordered.eq_of_name_eq hin hset hname
    exact ⟨rfl, rfl, Or.inl rfl⟩

/-- A cycle is in the set of a name only if it was in that set before, or was not there. -/
theorem Asked.mem_filesOf (h : Asked call c r change) (hc : c.Indexed) {file : FileId}
    {name : SetName} (hfile : file ∈ change.catalog.filesOf name) :
    file ∈ c.filesOf name ∨ c.cycle? file = none := by
  obtain ⟨hmoved, hfresh⟩ := h.moved hc
  rw [hmoved] at hfile
  cases hmove : change.moved with
  | none =>
      rw [hmove] at hfile
      exact Or.inl hfile
  | some move =>
      cases move with
      | entered entered new =>
          obtain rfl := hfresh entered new hmove
          rw [hmove] at hfile
          unfold Index.moved at hfile
          dsimp only at hfile
          split at hfile
          · rcases List.mem_append.1 hfile with hin | hnew
            · exact Or.inl hin
            · rw [List.mem_singleton.1 hnew]
              exact Or.inr (cycle?_eq_none_of_lt hc (Nat.lt_succ_self _))
          · exact Or.inl hfile
      | dropped gone =>
          rw [hmove] at hfile
          exact Or.inl (List.mem_filter.1 hfile).1

end Catalog

end FileDirectory
