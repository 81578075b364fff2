/-
**Cycles in use that a stop passes over.**

A client may assign a cycle over and over: what it was let assign once it is let assign again, and
while the device works nothing goes wrong, since the records of the cycle stay where they are.  So the
assignments of every cycle can be brought to a multiple of 2¹⁸, which half a word does not tell from
none.  A cycle that is written and has so many assignments is recovered as if nobody had had it.

Main definitions:

* `FileDirectory.Catalog.Grants` — a client is let assign a cycle;
* `FileDirectory.Directory.Assignable` — it is so in a directory that has met no failure, on a device
  that works.

Main results:

* `FileDirectory.Catalog.grants_of_assign` — what a client was let assign it is let assign again;
* `FileDirectory.Directory.Assignable.handle`, `FileDirectory.Directory.Assignable.after` — one
  assignment, and any number of them;
* `FileDirectory.Directory.exists_missed` — some number of them is missed by a stop.
-/

import FileDirectory.Proofs.Directory.Flagged
import Mathlib.Logic.Function.Iterate

set_option autoImplicit false

namespace FileDirectory

/-! ### Assignments of one cycle -/

namespace FileCycle

theorem held_iterate_assign (c : FileCycle) (client : Client) (now count : Nat) :
    ((fun c : FileCycle => c.assign client now)^[count] c).held client = c.held client + count := by
  induction count generalizing c with
  | zero => rfl
  | succ count ih =>
      rw [Function.iterate_succ_apply, ih, held_assign_self]
      omega

/-- Assignments change nothing of an item but their numbers and the time of the last of them. -/
theorem item_iterate_assign (c : FileCycle) (client : Client) (now count : Nat) :
    ∃ cumulative last, ((fun c : FileCycle => c.assign client now)^[count] c).item = { c.item with
      assigned := c.item.assigned + count
      cumulativeAssigns := cumulative
      lastReference := last } := by
  induction count generalizing c with
  | zero => exact ⟨_, _, rfl⟩
  | succ count ih =>
      obtain ⟨cumulative, last, hitem⟩ := ih (c.assign client now)
      refine ⟨cumulative, last, hitem.trans ?_⟩
      have hassigned : (c.assign client now).item.assigned + count = c.item.assigned + (count + 1) :=
        Nat.add_right_comm _ 1 count
      rw [hassigned]
      rfl

end FileCycle

namespace Catalog

variable {c : Catalog} {call : Call} {qualifier filename readKey : String} {number : Nat}
  {file : FileId}

/-- A client is let assign a cycle under its number. -/
def Grants (c : Catalog) (call : Call) (qualifier filename : String) (number : Nat)
    (readKey : String) (file : FileId) : Prop :=
  ∃ change, c.assign call qualifier filename (.absolute number) readKey = .ok change ∧
    change.answer = file

/-- A cycle that is assigned is found under its number as before. -/
theorem resolve_modify_assign {set : FileSet} {client : Client} {cycle : FileCycle}
    (h : set.resolve (.absolute number) client = .ok cycle) (client' : Client) (now : Nat) :
    (set.modify cycle.file fun d => d.assign client' now).resolve (.absolute number) client =
      .ok (cycle.assign client' now) := by
  have hsame : ((fun d : FileCycle => d.item.key.cycle = number && FileSet.visible client d) ∘
      fun d : FileCycle => if d.file = cycle.file then d.assign client' now else d) =
        fun d : FileCycle => d.item.key.cycle = number && FileSet.visible client d := by
    funext d
    rw [Function.comp_apply]
    split <;> rfl
  unfold FileSet.resolve FileSet.resolve? at h ⊢
  unfold FileSet.modify
  dsimp only at h ⊢
  rw [List.find?_map, hsame]
  split at h
  · rename_i d hfound
    cases h
    rw [hfound, Option.map_some, if_pos rfl]
  · cases h

/-- That the extents of all cycles can be numbered is a matter of each cycle. -/
theorem numbered_iff (hc : c.Indexed) : (∀ set ∈ c.sets, set.Numbered) ↔
    ∀ file cycle, c.cycle? file = some cycle → cycle.item.table.extents.length ≤ maxExtents := by
  constructor
  · intro h file cycle hcycle
    obtain ⟨set, hset, hin, -⟩ := (cycle?_eq_some_iff hc).1 hcycle
    exact h set hset cycle hin
  · intro h set hset cycle hcycle
    exact h cycle.file cycle (cycle?_of_mem hc hset hcycle)

section Assign

variable {change : Change FileId} (hc : c.Indexed)
  (h : c.assign call qualifier filename (.absolute number) readKey = .ok change)

include hc h

theorem missing_of_assign : ∀ changed ∈ change.catalog.find? change.touched,
    ∃ set ∈ c.find? change.touched, ∀ p : Placement, p.missing changed ≤ p.missing set := by
  obtain ⟨set, hset, cycle, hcycle, hvisible, -, -, rfl⟩ := assign_eq_ok h
  refine missing_of_cycleStep hc hset hcycle (.assign hvisible) rfl ?_
  rw [modify_eq (hc.nodup set hset) hcycle]

/-- A cycle that is assigned has one assignment more, and all others are as they were. -/
theorem cycle?_of_assign {b : FileCycle} (hb : c.cycle? change.answer = some b) (file : FileId) :
    change.catalog.cycle? file =
      if file = change.answer then some (b.assign call.client call.now) else c.cycle? file := by
  have hafter := (steps_assign hc.nodup h).indexed hc
  obtain ⟨set, hset, cycle, hcycle, -, -, -, rfl⟩ := assign_eq_ok h
  obtain rfl : cycle = b := Option.some.inj ((cycle?_of_mem hc hset hcycle).symm.trans hb)
  rw [modify_eq (hc.nodup set hset) hcycle] at hafter ⊢
  exact cycle?_put_modify hc hafter hset rfl hcycle rfl rfl file

/-- **What a client was let assign it is let assign again.** -/
theorem grants_of_assign :
    change.catalog.Grants call qualifier filename number readKey change.answer := by
  simp only [Catalog.assign, bind_eq_ok, pure_eq_ok] at h
  obtain ⟨_, hfirst, name, hname, spec, hspec, key, hkey, set, hset, _, hcheck, cycle, hcycle, _,
    hsecond, rfl⟩ := h
  obtain ⟨rfl, -⟩ := check_eq_ok hspec
  obtain ⟨hmem, rfl⟩ := find_eq_ok hset
  have hfind : (c.put (set.modify cycle.file fun d => d.assign call.client call.now)).find set.name =
      .ok (set.modify cycle.file fun d => d.assign call.client call.now) := by
    rw [find, find?_put_modify hc hmem]
  have hagain := resolve_modify_assign hcycle call.client call.now
  simp only [Grants, Catalog.assign, bind_eq_ok, pure_eq_ok]
  exact ⟨_, ⟨_, hfirst, _, hname, _, hspec, key, hkey, _, hfind, _, hcheck, _, hagain, _, hsecond,
    rfl⟩, rfl⟩

end Assign

end Catalog

namespace Directory

open Catalog

variable {config : Configuration} {d : Directory} {call : Call}
  {qualifier filename readKey : String} {number : Nat} {file : FileId} {b : FileCycle}

/-- A client is let assign a cycle of a directory that has met no failure, on a device that works. -/
structure Assignable (config : Configuration) (call : Call) (qualifier filename : String)
    (number : Nat) (readKey : String) (file : FileId) (d : Directory) : Prop where
  mirrored : Mirrored config d
  healthy : ∀ store, d.store = some store → store.device.Healthy
  grants : d.catalog.Grants call qualifier filename number readKey file

/-- Requests to assign a cycle under its number, one after another. -/
def assignments (call : Call) (qualifier filename : String) (number : Nat) (readKey : String)
    (times : Nat) : List (Call × Request) :=
  List.replicate times (call, .assign qualifier filename (.absolute number) readKey)

/-- **One assignment.** -/
theorem Assignable.handle (hconfig : config.defaultMaxRange < 2 ^ 18)
    (h : Assignable config call qualifier filename number readKey file d)
    (hb : d.catalog.cycle? file = some b) :
    ∃ reply d', d.handle call (.assign qualifier filename (.absolute number) readKey) =
        (.ok reply, d') ∧
      Assignable config call qualifier filename number readKey file d' ∧
      ∀ other, d'.catalog.cycle? other =
        if other = file then some (b.assign call.client call.now) else d.catalog.cycle? other := by
  obtain ⟨change, hassign, rfl⟩ := h.grants
  have hd := h.mirrored.indexed
  have hanswer := h.mirrored.perform h.healthy (steps_assign hd.nodup hassign)
    (missing_of_assign hd hassign)
  have hhandle : d.handle call (.assign qualifier filename (.absolute number) readKey) =
      (.ok (.file change.answer), (d.perform (.ok change)).2) := by
    unfold Directory.handle Directory.assign replied
    dsimp only
    rw [hassign, hanswer]
    rfl
  have hafter : d.after [(call, .assign qualifier filename (.absolute number) readKey)] =
      (d.perform (.ok change)).2 := congrArg Prod.snd hhandle
  obtain ⟨hquiet, htold⟩ : d.Quiet [(call, .assign qualifier filename (.absolute number) readKey)] ∧
      d.Told [(call, .assign qualifier filename (.absolute number) readKey)] :=
    quiet_cons_of_ok (congrArg Prod.fst hhandle) trivial trivial
  refine ⟨_, _, hhandle, ⟨?_, ?_, ?_⟩, ?_⟩
  · exact hafter ▸ h.mirrored.after hconfig hquiet htold
  · exact hafter ▸ healthy_after hd h.healthy _
  · rw [catalog_perform_ok]
    exact grants_of_assign hd hassign
  · rw [catalog_perform_ok]
    exact cycle?_of_assign hd hassign hb

/-- **Any number of assignments.** -/
theorem Assignable.after (hconfig : config.defaultMaxRange < 2 ^ 18)
    (h : Assignable config call qualifier filename number readKey file d)
    (hb : d.catalog.cycle? file = some b) (times : Nat) :
    (d.Quiet (assignments call qualifier filename number readKey times) ∧
      d.Told (assignments call qualifier filename number readKey times)) ∧
      ∀ other, (d.after (assignments call qualifier filename number readKey times)).catalog.cycle?
        other = if other = file then some ((fun c => c.assign call.client call.now)^[times] b)
          else d.catalog.cycle? other := by
  induction times generalizing d b with
  | zero =>
      refine ⟨⟨trivial, trivial⟩, fun other => ?_⟩
      split
      · rename_i hother
        rw [hother]
        exact hb
      · rfl
  | succ times ih =>
      obtain ⟨reply, d', hhandle, h', hcycle?⟩ := h.handle hconfig hb
      obtain ⟨⟨hquiet, htold⟩, hrest⟩ := ih h' ((hcycle? file).trans (if_pos rfl))
      unfold assignments at hquiet htold hrest ⊢
      rw [List.replicate_succ]
      constructor
      · refine quiet_cons_of_ok (congrArg Prod.fst hhandle) ?_ ?_ <;> rw [hhandle]
        · exact hquiet
        · exact htold
      · intro other
        rw [after_cons, hhandle, hrest, hcycle?]
        split <;> rfl

/-- **What is passed over**: if a cycle that is live, was written and is not flagged has a multiple of
2¹⁸ assignments, the flags do not tell the cycles that somebody has. -/
theorem Mirrored.not_flagged {e : Directory} {store : Store} (hd : Mirrored config d)
    (hmirrors : store.Mirrors d.catalog)
    (hrecover : (Directory.recover config store.device.copy).1 = .ok e)
    (hb : d.catalog.cycle? file = some b) (hlive : b.item.state = .live)
    (hwritten : b.item.fileFlags.written = true)
    (hflag : b.item.disable.assignedWrittenAtStop = false) (hdvd : 2 ^ 18 ∣ b.item.assigned)
    {client : Client} (hheld : 0 < b.held client) :
    ¬ Flagged d e fun c => ∃ client, 0 < c.held client := by
  intro hall
  obtain ⟨set, hset, hin, -⟩ := (cycle?_eq_some_iff hd.indexed).1 hb
  rw [← hd.shown_eq] at hflag
  have hsame := (hd.flagged hmirrors hrecover).congr_iff.1 hall b
    (List.mem_flatMap.2 ⟨set, hset, hin⟩) hlive hflag hwritten
  exact hsame.2 ⟨client, hheld⟩ hdvd

/-- **Some cycles in use are passed over**: whoever is let assign a cycle that is live, was written and
is not flagged, in a directory that has met no failure, can assign it so often that it is recovered
without the flag. -/
theorem exists_missed (hrange : config.defaultMaxRange < 2 ^ 18) (h : Unfailing config d)
    (hhealthy : ∀ store, d.store = some store → store.device.Healthy)
    (hnumbered : ∀ set ∈ d.catalog.sets, set.Numbered)
    (hgrants : d.catalog.Grants call qualifier filename number readKey file)
    (hb : d.catalog.cycle? file = some b) (hlive : b.item.state = .live)
    (hwritten : b.item.fileFlags.written = true)
    (hflag : (d.shown b).disable.assignedWrittenAtStop = false) :
    ∃ times store e, d.Quiet (assignments call qualifier filename number readKey times) ∧
      d.Told (assignments call qualifier filename number readKey times) ∧
      (d.after (assignments call qualifier filename number readKey times)).store = some store ∧
      (recover config store.device.copy).1 = .ok e ∧
      ¬ Flagged (d.after (assignments call qualifier filename number readKey times)) e
        fun c => ∃ client, 0 < c.held client := by
  have hmirrored := h.mirrored hrange
  rw [hmirrored.shown_eq] at hflag
  -- the next multiple of 2 ^ 18 above the assignments that there are
  obtain ⟨times, hpos, hdvd⟩ : ∃ times, 0 < times ∧ 2 ^ 18 ∣ b.item.assigned + times :=
    ⟨2 ^ 18 - b.item.assigned % 2 ^ 18, by omega, by omega⟩
  obtain ⟨⟨hquiet, htold⟩, hcycle?⟩ :=
    Assignable.after hrange ⟨hmirrored, hhealthy, hgrants⟩ hb times
  obtain ⟨cumulative, last, hitem⟩ := b.item_iterate_assign call.client call.now times
  have hmirrored' := hmirrored.after hrange hquiet htold
  have hnumbered' := (numbered_iff hmirrored'.indexed).2 fun other cycle hcycle => by
    rw [hcycle?] at hcycle
    split at hcycle
    · obtain rfl := Option.some.inj hcycle
      rw [hitem]
      exact (numbered_iff hmirrored.indexed).1 hnumbered file b hb
    · exact (numbered_iff hmirrored.indexed).1 hnumbered other cycle hcycle
  obtain ⟨store, hstore, hmirrors⟩ := hmirrored'.mirrors
  obtain ⟨e, he⟩ := hmirrored'.recover_of_numbered hmirrors hnumbered'
  refine ⟨times, store, e, hquiet, htold, hstore, he, hmirrored'.not_flagged hmirrors he
    ((hcycle? file).trans (if_pos rfl)) ?_ ?_ ?_ ?_ (b.held_iterate_assign call.client call.now times ▸
      Nat.add_pos_right _ hpos)⟩
  · rw [hitem, hlive]
  · rw [hitem, hwritten]
  · rw [hitem, hflag]
  · rw [hitem]
    exact hdvd

/-- A stop passes over this file, if its creator assigns it often enough. -/
theorem exists_missed_writtenDisk : ∃ d, Unfailing {} d ∧ ∃ store e, d.store = some store ∧
    (recover {} store.device.copy).1 = .ok e ∧
      ¬ Flagged d e fun c => ∃ client, 0 < c.held client := by
  obtain ⟨d, hunfailing, hhealthy, hcatalog⟩ := exists_writtenDisk
  have hgrants : d.catalog.Grants diskCall "Q" "D" 1 "" ⟨1⟩ := by
    rw [hcatalog]
    exact ⟨_, rfl, rfl⟩
  have hnumbered : ∀ set ∈ d.catalog.sets, set.Numbered := by
    rw [hcatalog]
    unfold FileSet.Numbered
    decide +kernel
  obtain ⟨b, hb, hlive, hwritten, hflag⟩ : ∃ b, d.catalog.cycle? ⟨1⟩ = some b ∧
      b.item.state = .live ∧ b.item.fileFlags.written = true ∧
        b.item.disable.assignedWrittenAtStop = false := by
    rw [hcatalog]
    exact ⟨_, rfl, by decide +kernel, by decide +kernel, by decide +kernel⟩
  obtain ⟨times, store, e, hquiet, htold, hmissed⟩ := exists_missed (by decide) hunfailing hhealthy
    hnumbered hgrants hb hlive hwritten
    (by rw [(hunfailing.mirrored (by decide)).shown_eq, hflag])
  exact ⟨_, hunfailing.after hquiet htold, store, e, hmissed⟩

end Directory

end FileDirectory
