/-
**The ledger of a medium.**

A medium that can be read is told by its ledger: the records that it holds, with their sectors; every
other sector is free.  Recovery of a medium succeeds exactly if the records of each file set cohere,
no two being records of the same thing and none lacking another, and the tracks of what is left can
be claimed.  A write replaces one entry of the ledger.

Main definitions:

* `FileDirectory.Recovery.ledger` — the records on a medium;
* `FileDirectory.Recovery.Holds` — a medium holds given records and no others;
* `FileDirectory.Recovery.Coherent` — records that recovery accepts;
* `FileDirectory.Recovery.replay` — the ledger after sectors have been written in turn.

Main results:

* `FileDirectory.Recovery.recover_iff`, `FileDirectory.Recovery.recover_iff_sets` — when a medium is
  recovered, and the catalog that this gives;
* `FileDirectory.Recovery.Holds.write` — what is held after a run of writes.
-/

import FileDirectory.Proofs.Recovery.Healthy
import FileDirectory.Proofs.Recovery.Remains

set_option autoImplicit false

namespace FileDirectory.Recovery

/-! ### Coherent records -/

/-- No two records are records of the same thing, and none lacks another that it needs. -/
structure Coherent (found : List Found) : Prop where
  tags : (found.map fun f => f.record.tag).Nodup
  complete : Complete found

/-- Whether records cohere is told by what they are records of. -/
theorem coherent_congr {found found' : List Found}
    (htags : (found.map fun f => f.record.tag).Perm (found'.map fun f => f.record.tag)) :
    Coherent found ↔ Coherent found' := by
  constructor
  · rintro ⟨hnodup, hcomplete⟩
    exact ⟨htags.nodup_iff.1 hnodup, (complete_congr htags).1 hcomplete⟩
  · rintro ⟨hnodup, hcomplete⟩
    exact ⟨htags.nodup_iff.2 hnodup, (complete_congr htags).2 hcomplete⟩

theorem set_eq_of_tag_eq {r r' : Record} (h : r.tag = r'.tag) : r.set = r'.set := by
  cases r <;> cases r' <;> simp_all [Record.tag, Record.set]

/-- Records are told apart if those of each file set are. -/
theorem nodup_tags_iff {found : List Found} (hsectors : (found.map Found.sector).Nodup)
    {names : List SetName} (hall : ∀ f ∈ found, f.record.set ∈ names) :
    (found.map fun f => f.record.tag).Nodup ↔
      ∀ name ∈ names, ((ofSet name found).map fun f => f.record.tag).Nodup := by
  have hnodup : found.Nodup := hsectors.of_map
  constructor
  · intro h name _
    exact h.sublist (List.filter_sublist.map _)
  · intro h
    refine (List.nodup_map_iff_inj_on hnodup).2 ?_
    intro f hf g hg htag
    have hof : ∀ g ∈ found, g.record.set = f.record.set → g ∈ ofSet f.record.set found :=
      fun g hg hset => List.mem_filter.2 ⟨hg, decide_eq_true hset⟩
    exact List.inj_on_of_nodup_map (h f.record.set (hall f hf)) (hof f hf rfl)
      (hof g hg (set_eq_of_tag_eq htag).symm) htag

/-! ### What a medium holds -/

/-- The medium holds the given records, each in its sector, and no others. -/
structure Holds (device : Device) (ledger : List Found) : Prop where
  sectors : (ledger.map Found.sector).Nodup
  record : ∀ f ∈ ledger, ∃ content, device.read f.sector = .ok content ∧
    Record.ofSector content = .ok (some f.record)
  free : ∀ sector < device.sectorCount, sector ∉ ledger.map Found.sector →
    ∃ content, device.read sector = .ok content ∧ Record.ofSector content = .ok none

theorem sector_lt_of_read_eq_ok {device : Device} {sector : Nat} {content : Sector}
    (h : device.read sector = .ok content) : sector < device.sectorCount := by
  have hread := (Device.read_eq_ok.1 h).2
  unfold Medium.read at hread
  split at hread
  · assumption
  · cases hread

/-- The records on a medium. -/
def ledger (device : Device) : List Found :=
  (List.range device.sectorCount).filterMap (foundAt device)

/-- A medium that can be read holds the records that are on it. -/
theorem holds_ledger {device : Device} (h : ∀ sector < device.sectorCount, Readable device sector) :
    Holds device (ledger device) := by
  refine ⟨nodup_sectors_foundAt device, ?_, ?_⟩
  · intro f hf
    obtain ⟨hrange, hat⟩ := mem_filterMap_foundAt.1 hf
    obtain ⟨content, record, hread, hrecord⟩ := h f.sector (List.mem_range.1 hrange)
    rw [foundAt_of_read hread hrecord] at hat
    obtain ⟨r, rfl, heq⟩ := Option.map_eq_some_iff.1 hat
    exact ⟨content, hread, heq ▸ hrecord⟩
  · intro sector hlt hout
    obtain ⟨content, record, hread, hrecord⟩ := h sector hlt
    refine ⟨content, hread, ?_⟩
    cases record with
    | none => exact hrecord
    | some record =>
        have hin : (⟨sector, record⟩ : Found) ∈ ledger device :=
          mem_filterMap_foundAt.2 ⟨List.mem_range.2 hlt, foundAt_of_read hread hrecord⟩
        exact absurd (List.mem_map_of_mem hin) hout

section Reading

variable {device : Device} {ledger : List Found}

/-- The records found on a medium are those of its ledger. -/
theorem Holds.perm_found (h : Holds device ledger) :
    (Recovery.ledger device).Perm ledger := by
  refine (List.perm_ext_iff_of_nodup (nodup_sectors_foundAt device).of_map h.sectors.of_map).2 ?_
  intro f
  rw [mem_filterMap_foundAt, List.mem_range]
  constructor
  · rintro ⟨hlt, hat⟩
    by_cases hin : f.sector ∈ ledger.map Found.sector
    · obtain ⟨g, hg, hsector⟩ := List.mem_map.1 hin
      obtain ⟨content, hread, hrecord⟩ := h.record g hg
      rw [hsector] at hread
      rw [foundAt_of_read hread hrecord, Option.map_some, ← hsector] at hat
      rwa [← Option.some.inj hat]
    · obtain ⟨content, hread, hrecord⟩ := h.free f.sector hlt hin
      rw [foundAt_of_read hread hrecord] at hat
      cases hat
  · intro hf
    obtain ⟨content, hread, hrecord⟩ := h.record f hf
    exact ⟨sector_lt_of_read_eq_ok hread, foundAt_of_read hread hrecord⟩

/-- A medium can be read if no two of its records are records of the same thing. -/
theorem Holds.read_iff (h : Holds device ledger) {found : List Found} :
    read device = .ok found ↔ (ledger.map fun f => f.record.tag).Nodup ∧
      found = Recovery.ledger device := by
  have hreadable : ∀ sector < device.sectorCount, Readable device sector := by
    intro sector hlt
    by_cases hin : sector ∈ ledger.map Found.sector
    · obtain ⟨f, hf, rfl⟩ := List.mem_map.1 hin
      obtain ⟨content, hread, hrecord⟩ := h.record f hf
      exact ⟨content, _, hread, hrecord⟩
    · obtain ⟨content, hread, hrecord⟩ := h.free sector hlt hin
      exact ⟨content, _, hread, hrecord⟩
  rw [read_eq_ok]
  have htags := (h.perm_found.map fun f => f.record.tag).nodup_iff
  constructor
  · rintro ⟨-, rfl, hnodup⟩
    exact ⟨htags.1 hnodup, rfl⟩
  · rintro ⟨hnodup, rfl⟩
    exact ⟨hreadable, rfl, htags.2 hnodup⟩

/-- **When a medium is recovered, and the catalog that this gives.**  Only the records count, not
their sectors. -/
theorem recover_iff (config : Configuration) (hhealthy : device.Healthy)
    (h : Holds device ledger) {catalog : Catalog} :
    (∃ d, (Directory.recover config device).1 = .ok d ∧ d.catalog = catalog) ↔
      Coherent ledger ∧ restart config (remains ledger) = .ok catalog := by
  rw [Directory.recover_healthy config hhealthy,
    ← coherent_congr (h.perm_found.map fun f => f.record.tag)]
  constructor
  · rintro ⟨found, r, hread, hr, hcatalog⟩
    have hdistinct := distinct_of_read hread
    obtain ⟨-, rfl⟩ := h.read_iff.1 hread
    obtain ⟨hcomplete, hrestart⟩ := rebuild_iff.1 ⟨r, hr, hcatalog⟩
    exact ⟨⟨hdistinct.tags, hcomplete⟩, remains_perm hdistinct h.perm_found ▸ hrestart⟩
  · rintro ⟨⟨htags, hcomplete⟩, hrestart⟩
    have hdistinct : Distinct (Recovery.ledger device) := ⟨nodup_sectors_foundAt device, htags⟩
    rw [← remains_perm hdistinct h.perm_found] at hrestart
    obtain ⟨r, hr, hcatalog⟩ := rebuild_iff.2 ⟨hcomplete, hrestart⟩
    have hread := h.read_iff.2 ⟨((h.perm_found.map _).nodup_iff).1 htags, rfl⟩
    exact ⟨_, r, hread, hr, hcatalog⟩

/-- Each file set is recovered by itself. -/
theorem recover_iff_sets (config : Configuration) (hhealthy : device.Healthy)
    (h : Holds device ledger) {names : List SetName}
    (hnames : names.Pairwise fun a b => compare a b = .lt)
    (hall : ∀ f ∈ ledger, f.record.set ∈ names) {catalog : Catalog} :
    (∃ d, (Directory.recover config device).1 = .ok d ∧ d.catalog = catalog) ↔
      (∀ name ∈ names, Coherent (ofSet name ledger)) ∧
        restart config (names.flatMap fun name => remains (ofSet name ledger)) = .ok catalog := by
  have hcoherent : (∀ name ∈ names, Coherent (ofSet name ledger)) ↔ Coherent ledger := by
    constructor
    · intro hsets
      have htags := (nodup_tags_iff h.sectors hall).2 fun name hname => (hsets name hname).tags
      exact ⟨htags, (complete_iff_forall ⟨h.sectors, htags⟩ hall).2
        fun name hname => (hsets name hname).complete⟩
    · rintro ⟨htags, hcomplete⟩ name hname
      exact ⟨(nodup_tags_iff h.sectors hall).1 htags name hname,
        (complete_iff_forall ⟨h.sectors, htags⟩ hall).1 hcomplete name hname⟩
  rw [recover_iff config hhealthy h, hcoherent]
  refine and_congr_right fun hwhole => ?_
  rw [remains_eq_flatMap ⟨h.sectors, hwhole.tags⟩ hnames hall]

end Reading

/-! ### Writing -/

/-- The record that a write puts into its sector, if it puts one there. -/
def foundIn (w : Write) : Option Found :=
  match Record.ofSector w.content with
  | .ok (some record) => some ⟨w.sector, record⟩
  | _ => none

/-- The ledger after a sector has been written. -/
def overwrite (ledger : List Found) (w : Write) : List Found :=
  (foundIn w).toList ++ ledger.filter fun f => f.sector ≠ w.sector

/-- The ledger after sectors have been written in turn. -/
def replay (ledger : List Found) (ws : List Write) : List Found := ws.foldl overwrite ledger

@[simp] theorem replay_nil (ledger : List Found) : replay ledger [] = ledger := rfl

@[simp] theorem replay_cons (ledger : List Found) (w : Write) (ws : List Write) :
    replay ledger (w :: ws) = replay (overwrite ledger w) ws := rfl

theorem foundIn_eq_some {w : Write} {f : Found} :
    foundIn w = some f ↔ w.sector = f.sector ∧ Record.ofSector w.content = .ok (some f.record) := by
  obtain ⟨sector, record⟩ := f
  unfold foundIn
  split
  · rename_i r hr
    simp [hr]
  · rename_i hne
    constructor
    · intro hbad
      cases hbad
    · rintro ⟨-, hr⟩
      exact absurd hr (hne record)

theorem mem_overwrite {ledger : List Found} {w : Write} {f : Found} :
    f ∈ overwrite ledger w ↔ foundIn w = some f ∨ f ∈ ledger ∧ f.sector ≠ w.sector := by
  simp [overwrite]

section Writing

variable {device : Device} {ledger : List Found}

/-- What a medium holds has one record a sector after a sector has been written, if it had before. -/
theorem nodup_sectors_overwrite (h : (ledger.map Found.sector).Nodup) (w : Write) :
    ((overwrite ledger w).map Found.sector).Nodup := by
  have hrest : ((ledger.filter fun f => f.sector ≠ w.sector).map Found.sector).Nodup :=
    h.sublist (List.filter_sublist.map _)
  unfold overwrite
  cases hfound : foundIn w with
  | none => exact hrest
  | some f =>
      refine List.nodup_cons.2 ⟨?_, hrest⟩
      intro hin
      obtain ⟨g, hg, hsector⟩ := List.mem_map.1 hin
      refine of_decide_eq_true (List.mem_filter.1 hg).2 ?_
      rw [hsector, ← (foundIn_eq_some.1 hfound).1]

/-- What is read after a sector has been written. -/
theorem read_put (hreads : ∀ sector, device.failsRead sector = false) {w : Write}
    (hbound : w.sector < device.sectorCount) (sector : Nat) :
    Device.read { device with medium := device.medium.put w.sector w.content
                              attempts := device.attempts + 1 } sector =
      if sector = w.sector then .ok w.content else device.read sector := by
  rw [Device.read, hreads, if_neg Bool.false_ne_true]
  split
  · rename_i heq
    rw [heq]
    exact Medium.read_put_self _ hbound
  · rename_i hne
    rw [Device.read, hreads, if_neg Bool.false_ne_true]
    exact Medium.read_put_of_ne _ hbound hne

/-- A medium holds another record, or none, in a sector that was written. -/
theorem Holds.put (h : Holds device ledger) (hreads : ∀ sector, device.failsRead sector = false)
    {w : Write} (hbound : w.sector < device.sectorCount)
    (hrecord : ∃ record, Record.ofSector w.content = .ok record) :
    Holds { device with medium := device.medium.put w.sector w.content
                        attempts := device.attempts + 1 } (overwrite ledger w) := by
  refine ⟨nodup_sectors_overwrite h.sectors w, ?_, ?_⟩
  · intro f hf
    rw [read_put hreads hbound]
    rcases mem_overwrite.1 hf with hfound | ⟨hin, hne⟩
    · obtain ⟨hsector, hof⟩ := foundIn_eq_some.1 hfound
      exact ⟨w.content, if_pos hsector.symm, hof⟩
    · rw [if_neg hne]
      exact h.record f hin
  · intro sector hlt hout
    rw [read_put hreads hbound]
    by_cases heq : sector = w.sector
    · subst heq
      obtain ⟨record, hof⟩ := hrecord
      refine ⟨w.content, if_pos rfl, ?_⟩
      cases record with
      | none => exact hof
      | some record =>
          have hin : (⟨w.sector, record⟩ : Found) ∈ overwrite ledger w :=
            mem_overwrite.2 (Or.inl (foundIn_eq_some.2 ⟨rfl, hof⟩))
          exact absurd (List.mem_map_of_mem hin) hout
    · rw [if_neg heq]
      refine h.free sector (Nat.lt_of_lt_of_eq hlt (Medium.sectorCount_put _ _ _)) ?_
      intro hold
      obtain ⟨f, hf, rfl⟩ := List.mem_map.1 hold
      have hin : f ∈ overwrite ledger w := mem_overwrite.2 (Or.inr ⟨hf, heq⟩)
      exact hout (List.mem_map_of_mem hin)

/-- **What is held after a run of writes that all succeed.** -/
theorem Holds.write (h : Holds device ledger) (hhealthy : device.Healthy)
    (hreads : ∀ sector, device.failsRead sector = false) {ws : List Write}
    (hbound : ∀ w ∈ ws, w.sector < device.sectorCount)
    (hrecords : ∀ w ∈ ws, ∃ record, Record.ofSector w.content = .ok record) :
    Holds (Store.write device ws).1 (replay ledger ws) := by
  induction ws generalizing device ledger with
  | nil => exact h
  | cons w ws ih =>
      have hlt := hbound w List.mem_cons_self
      have hput := h.put hreads hlt (hrecords w List.mem_cons_self)
      rw [Store.write, hhealthy.write w.content hlt, replay_cons]
      refine ih hput (hhealthy.put _ _) hreads ?_ fun v hv => hrecords v (List.mem_cons_of_mem _ hv)
      intro v hv
      exact Nat.lt_of_lt_of_eq (hbound v (List.mem_cons_of_mem _ hv))
        (Medium.sectorCount_put _ _ _).symm

end Writing

end FileDirectory.Recovery
