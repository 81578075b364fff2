/-
**What an operation writes.**

Every operation on a directory that is recorded stages sector writes and carries them out in order, so
that a request comes down to a list of writes.  Each of them is for a sector of the medium, and what it
writes can be read back by recovery.  A directory that was set up therefore never loses the ability to
have its medium read, whatever attempts at writing fail.

Main definitions:

* `FileDirectory.Directory.writes` — the sector writes of a request, in order;
* `FileDirectory.Directory.Legible` — every sector of the medium can be read.

Main results:

* `FileDirectory.Directory.device_handle` — a request changes the medium by its writes;
* `FileDirectory.Directory.legible_after` — every sector can be read after every history;
* `FileDirectory.Directory.Legible.writes` — so can what a request writes.
-/

import FileDirectory.Proofs.Directory.Recorded
import FileDirectory.Proofs.Record.RoundTrip
import FileDirectory.Proofs.Recovery.Ledger

set_option autoImplicit false

namespace FileDirectory

open Recovery

/-! ### What is staged can be read -/

/-- What a write puts into its sector can be read back. -/
def Write.Legible (w : Write) : Prop := ∃ record, Record.ofSector w.content = .ok record

namespace Staging

theorem legible_clearing {sectors : List Nat} {w : Write} (hw : w ∈ clearing sectors) :
    w.Legible := by
  obtain ⟨sector, -, rfl⟩ := List.mem_map.1 hw
  exact ⟨none, Record.ofSector_zero⟩

theorem legible_recording {file : FileId} {item : MainItem} {sectors : List Nat} {w : Write}
    (hw : w ∈ recording file item sectors) : w.Legible := by
  obtain ⟨⟨sector, content⟩, hzip, rfl⟩ := List.mem_map.1 hw
  have hin : Record.ofSector content ∈ item.records.map Record.ofSector :=
    List.mem_map_of_mem (List.of_mem_zip hzip).2
  rw [Record.ofSector_records] at hin
  obtain ⟨record, -, heq⟩ := List.mem_map.1 hin
  exact ⟨some record, heq.symm⟩

end Staging

namespace Store

/-- What is staged for a file set can be read back. -/
theorem legible_stage (s : Store) (name : SetName) (set? : Option FileSet) :
    ∀ w ∈ (s.stage name set?).2.writes, w.Legible := by
  have hclear : ∀ sectors, ∀ w ∈ Staging.clearing sectors, w.Legible :=
    fun _ _ => Staging.legible_clearing
  have hfree : ∀ sectors, ∀ w ∈ (Staging.free { inUse := s.inUse } sectors).writes, w.Legible :=
    fun sectors => Staging.forall_free (fun _ hw => absurd hw List.not_mem_nil) (hclear sectors)
  unfold stage
  cases set? with
  | none => exact Staging.forall_free (hfree _) (hclear _)
  | some set =>
      refine Staging.forall_cycles (Staging.forall_lead (hfree _) ?_ _) hclear
        (fun _ _ _ _ => Staging.legible_recording) _
      exact fun l => ⟨_, Record.ofSector_record _ _ _⟩

/-- A sector reads as before, or as one of the writes that were attempted. -/
theorem read_write_cases (device : Device) (ws : List Write) (sector : Nat) :
    (write device ws).1.medium.read sector = device.medium.read sector ∨
      ∃ w ∈ ws, (write device ws).1.medium.read sector = .ok w.content := by
  fun_induction write device ws with
  | case1 device => exact Or.inl rfl
  | case2 device w ws after hw ih =>
      obtain ⟨hlt, rfl⟩ := Device.write_eq_ok hw
      rcases ih with hsame | ⟨v, hv, hread⟩
      · rw [hsame]
        by_cases heq : sector = w.sector
        · rw [heq]
          exact Or.inr ⟨w, List.mem_cons_self, Medium.read_put_self _ hlt⟩
        · exact Or.inl (Medium.read_put_of_ne _ hlt heq)
      · exact Or.inr ⟨v, List.mem_cons_of_mem _ hv, hread⟩
  | case3 device w ws e after hw final failures heq ih =>
      rw [heq, Device.write_eq_error hw] at ih
      rcases ih with hsame | ⟨v, hv, hread⟩
      · exact Or.inl hsame
      · exact Or.inr ⟨v, List.mem_cons_of_mem _ hv, hread⟩

end Store

/-! ### The writes of a request -/

namespace Directory

open Catalog

/-- The sector writes of an operation, in the order in which they are carried out. -/
def journal {α : Type} (d : Directory) (outcome : Except Failure (Change α)) : List Write :=
  match outcome, d.store with
  | .ok change, some store =>
    (store.stage change.touched (change.catalog.find? change.touched)).2.writes
  | _, _ => []

/-- The sector writes of a request, in the order in which they are carried out. -/
def writes (d : Directory) (call : Call) (r : Request) : List Write := d.trace journal call r

/-- The device of a directory that is recorded. -/
def device? (d : Directory) : Option Device := d.store.map Store.device

/-- An operation changes the medium by its writes. -/
theorem device_perform {α : Type} (d : Directory) (outcome : Except Failure (Change α)) :
    (d.perform outcome).2.device? =
      d.device?.map fun device => (Store.write device (d.journal outcome)).1 := by
  obtain ⟨c, roster, index, store⟩ := d
  cases outcome with
  | error f => cases store <;> rfl
  | ok change => cases store <;> rfl

/-- Writes are carried out one part after the other, and the failures of both are reported. -/
theorem write_append (device : Device) (first rest : List Write) :
    Store.write device (first ++ rest) =
      ((Store.write (Store.write device first).1 rest).1,
        (Store.write device first).2 ++ (Store.write (Store.write device first).1 rest).2) := by
  fun_induction Store.write device first with
  | case1 device => rfl
  | case2 device w first after hw ih =>
      rw [List.cons_append, Store.write, hw]
      exact ih
  | case3 device w first e after hw final failures heq ih =>
      rw [List.cons_append, Store.write, hw]
      rw [heq] at ih
      dsimp only
      rw [ih]
      rfl

/-- **What every operation preserves with what it writes, a request preserves with its writes.** -/
theorem writes_induction {P : Directory → List Write → Prop} {call : Call}
    (hstep : ∀ {α : Type} (e : Directory) (ws : List Write) (outcome : Except Failure (Change α)),
      (e.catalog.Indexed → ∀ change, outcome = .ok change → change.Steps call e.catalog) →
        P e ws → P (e.perform outcome).2 (ws ++ e.journal outcome))
    {d : Directory} (h : P d []) (r : Request) : P (d.handle call r).2 (d.writes call r) :=
  trace_induction journal hstep h r

/-- **A request changes the medium by its writes**, in their order. -/
theorem device_handle (d : Directory) (call : Call) (r : Request) :
    (d.handle call r).2.device? =
      d.device?.map fun device => (Store.write device (d.writes call r)).1 := by
  refine writes_induction (P := fun e ws =>
    e.device? = d.device?.map fun device => (Store.write device ws).1) ?_ (by simp) r
  intro α e ws outcome _ hws
  rw [device_perform, hws, Option.map_map]
  refine congrArg (fun f => d.device?.map f) (funext fun device => ?_)
  exact (congrArg Prod.fst (write_append _ _ _)).symm

/-! ### Media that can be read -/

/-- Every sector of the medium can be read and is free or holds a record. -/
structure Legible (d : Directory) : Prop where
  indexed : d.catalog.Indexed
  readable : ∃ store, d.store = some store ∧ store.Keeps d.catalog ∧
    ∀ sector < store.device.sectorCount, Readable store.device.copy sector

theorem legible_format {config : Configuration} {device : Device} {d : Directory}
    (h : format config device = .ok d) : Legible d := by
  obtain ⟨device', rfl, hclear⟩ := format_eq_ok h
  refine ⟨indexed_empty config, _, rfl, keeps_format config device', ?_⟩
  intro sector hlt
  exact ⟨Sector.zero, none, hclear sector hlt, Record.ofSector_zero⟩

/-- Every operation leaves the medium so that it can be read, whatever attempts at writing fail. -/
theorem Operated.legible {call : Call} {d d' : Directory} {trouble : Option Failure}
    (h : Operated call d d' trouble) (hd : Legible d) : Legible d' := by
  obtain ⟨hindexed, store, hstore, hkeeps, hreadable⟩ := hd
  refine ⟨h.indexed hindexed, ?_⟩
  have hkept : ∀ other, d.store = some other → other.Keeps d.catalog := by
    intro other hother
    obtain rfl := Option.some.inj (hother.symm.trans hstore)
    exact hkeeps
  have hafter := h.keeps hindexed hkept
  cases h with
  | memory hnone _ =>
      rw [hnone] at hstore
      cases hstore
  | @medium set space last _ _ before after _ hsome hstep hrecord =>
      obtain rfl : before = store := Option.some.inj (hsome.symm.trans hstore)
      refine ⟨after, rfl, hafter after rfl, ?_⟩
      have hdevice := congrArg (fun outcome => outcome.1.device) hrecord
      change (Store.write before.device (before.stage set.name
        (({ d.catalog with space := space, lastFile := last }.put set).find? set.name)).2.writes).1 =
          after.device at hdevice
      rw [← hdevice, Store.sectorCount_write]
      intro sector hlt
      rcases Store.read_write_cases before.device (before.stage set.name
        (({ d.catalog with space := space, lastFile := last }.put set).find? set.name)).2.writes
        sector with hsame | ⟨w, hw, hread⟩
      · obtain ⟨content, record, hread, hrecord⟩ := hreadable sector hlt
        exact ⟨content, record, hsame.trans hread, hrecord⟩
      · obtain ⟨record, hlegible⟩ := before.legible_stage _ _ w hw
        exact ⟨w.content, record, hread, hlegible⟩

/-- **Every sector of the medium can be read after every history**, in any pattern of failing
attempts at writing. -/
theorem legible_after {config : Configuration} {device : Device} {d : Directory}
    (hformat : format config device = .ok d) (history : List (Call × Request)) :
    Legible (d.after history) := by
  have hd := legible_format hformat
  refine (after_induction (P := Legible) ?_ hd.indexed hd history).1
  intro call e e' trouble _ he hop
  exact hop.legible he

/-- A write is for a sector that there is, and what it writes can be read back. -/
def Suits (d : Directory) (w : Write) : Prop :=
  w.Legible ∧ ∀ device ∈ d.device?, w.sector < device.sectorCount

theorem Legible.perform {α : Type} {d : Directory} (h : d.Legible) {call : Call}
    (outcome : Except Failure (Change α))
    (hsteps : ∀ change, outcome = .ok change → change.Steps call d.catalog) :
    (∀ w ∈ d.journal outcome, d.Suits w) ∧ (d.perform outcome).2.Legible := by
  cases outcome with
  | error f =>
      refine ⟨?_, h⟩
      intro w hw
      cases hw
  | ok change =>
      obtain ⟨trouble, hoperated, -⟩ := operated_perform (hsteps change rfl)
      have hafter := hoperated.legible h
      refine ⟨?_, hafter⟩
      have hindexed := hafter.indexed
      rw [catalog_perform_ok] at hindexed
      obtain ⟨hbefore, store, hstore, hkeeps, -⟩ := h
      unfold journal Suits device?
      rw [hstore]
      intro w hw
      refine ⟨store.legible_stage _ _ w hw, ?_⟩
      rintro device hdevice
      obtain rfl := Option.some.inj hdevice
      exact hkeeps.sector_lt hbefore hindexed _ w hw

/-- **What a request writes can be read back**, and is for sectors that there are. -/
theorem Legible.writes {d : Directory} (h : d.Legible) (call : Call) (r : Request) :
    ∀ w ∈ d.writes call r, d.Suits w := by
  refine (writes_induction (P := fun e ws => e.Legible ∧ (∀ w ∈ ws, d.Suits w) ∧
    e.device?.map Device.sectorCount = d.device?.map Device.sectorCount) ?_
    ⟨h, fun _ hw => absurd hw List.not_mem_nil, rfl⟩ r).2.1
  rintro α e ws outcome hsteps ⟨he, hws, hcount⟩
  obtain ⟨hnew, hafter⟩ := he.perform outcome (hsteps he.indexed)
  refine ⟨hafter, fun w hw => ?_, ?_⟩
  · rcases List.mem_append.1 hw with hw | hw
    · exact hws w hw
    · obtain ⟨hlegible, hlt⟩ := hnew w hw
      refine ⟨hlegible, fun device hdevice => ?_⟩
      -- the medium has as many sectors as before
      rw [hdevice, Option.map_some, Option.map_eq_some_iff] at hcount
      obtain ⟨device', hdevice', heq⟩ := hcount
      rw [← heq]
      exact hlt device' hdevice'
  · rw [← hcount, device_perform, Option.map_map]
    refine congrArg (fun f => e.device?.map f) (funext fun device => ?_)
    exact Store.sectorCount_write device (e.journal outcome)

end Directory

end FileDirectory
