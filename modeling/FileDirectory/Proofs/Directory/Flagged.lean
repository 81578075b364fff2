/-
**Which recovered cycles are flagged.**

A stop leaves a mark on the cycles that it caught in use: a cycle whose tracks were marked as written
and that somebody had assigned is flagged when it is recovered.  How often a cycle is assigned is
recorded in half a word, as the remainder by 2¹⁸, so that a cycle that is assigned a multiple of 2¹⁸
times goes by unflagged.

Main definitions:

* `FileDirectory.Directory.Flagged` — a recovered directory in which the cycles of some kind are
  flagged.

Main results:

* `FileDirectory.Directory.Mirrored.flagged` — the cycles are flagged whose assignments are no
  multiple of 2¹⁸;
* `FileDirectory.Directory.flagged_iff` — when these are the cycles that were in use.
-/

import FileDirectory.Proofs.Directory.Alike
import FileDirectory.Proofs.Directory.Bookkeeping
import FileDirectory.Proofs.Directory.Continued
import FileDirectory.Proofs.Directory.Ready

set_option autoImplicit false

namespace FileDirectory

namespace Catalog

/-! ### Cycles and their keys -/

/-- Cycles are told apart by their keys. -/
theorem Recordable.eq_of_key_eq {c : Catalog} (h : c.Recordable) (hc : c.Indexed)
    {a b : FileCycle} (ha : a ∈ c.cycles) (hb : b ∈ c.cycles) (hkey : a.item.key = b.item.key) :
    a = b := by
  obtain ⟨s, hs, ha⟩ := List.mem_flatMap.1 ha
  obtain ⟨t, ht, hb⟩ := List.mem_flatMap.1 hb
  have hname : s.name = t.name := by rw [← hc.named s hs a ha, ← hc.named t ht b hb, hkey]
  obtain rfl := hc.ordered.eq_of_name_eq hs ht hname
  exact List.inj_on_of_nodup_map (h.keys s hs) ha hb hkey

end Catalog

/-! ### The flag -/

/-- A cycle is flagged by a stop if it was flagged before, or was written and its assignments do not
vanish from half a word. -/
theorem MainItem.assignedWrittenAtStop_left (m : MainItem) :
    m.left.disable.assignedWrittenAtStop = true ↔ m.disable.assignedWrittenAtStop = true ∨
      (m.fileFlags.written = true ∧ ¬ 2 ^ 18 ∣ m.assigned) := by
  simp only [left, Recovery.afterStop, stored, Bool.or_eq_true, Bool.and_eq_true, ne_eq,
    Nat.dvd_iff_mod_eq_zero, and_comm]
  exact or_congr_right (and_congr_right fun _ => decide_eq_true_iff)

/-- Somebody has a cycle assigned exactly if there are assignments of it. -/
theorem FileCycle.Tallied.exists_held_iff {c : FileCycle} (h : c.Tallied) :
    (∃ client, 0 < c.held client) ↔ total c.holders ≠ 0 := by
  constructor
  · rintro ⟨client, hpos⟩
    exact Nat.ne_of_gt (Nat.lt_of_lt_of_le hpos (h.assigned ▸ h.held_le_assigned client))
  · intro hne
    cases hholders : c.holders with
    | nil =>
        rw [hholders] at hne
        exact absurd rfl hne
    | cons holder holders =>
        refine ⟨holder.1, h.held_pos_iff.2 ?_⟩
        rw [hholders]
        exact List.mem_cons_self

namespace Directory

open Catalog

/-- **The cycles of some kind are flagged** in what was recovered of a directory: the recovered cycles
are those that were live, and one is flagged if it was flagged before, or was written and is of that
kind. -/
structure Flagged (d e : Directory) (kind : FileCycle → Prop) : Prop where
  live : ∀ c ∈ e.catalog.cycles, c.item.state = .live
  keys : ∀ key, (∃ c ∈ e.catalog.cycles, c.item.key = key) ↔
    ∃ c ∈ d.catalog.cycles, c.item.state = .live ∧ c.item.key = key
  flags : ∀ c ∈ e.catalog.cycles, ∀ before ∈ d.catalog.cycles, before.item.state = .live →
    before.item.key = c.item.key → ((e.shown c).disable.assignedWrittenAtStop = true ↔
      (d.shown before).disable.assignedWrittenAtStop = true ∨
        (before.item.fileFlags.written = true ∧ kind before))

section Recovered

variable {config : Configuration} {d e : Directory} {store : Store} {kind kind' : FileCycle → Prop}

/-- **The cycles are flagged whose assignments are no multiple of 2¹⁸.** -/
theorem Mirrored.flagged (hd : Mirrored config d) (hmirrors : store.Mirrors d.catalog)
    (hrecover : (recover config store.device.copy).1 = .ok e) :
    Flagged d e fun c => ¬ 2 ^ 18 ∣ c.item.assigned := by
  have hfits : ∀ c ∈ d.catalog.cycles, c.item.Fits := by
    intro c hc
    obtain ⟨set, hset, hin⟩ := List.mem_flatMap.1 hc
    exact hd.recordable.items set hset c hin
  have hrecovered := fun m => hd.exists_recovered_iff hmirrors hrecover (m := m)
  have hkey : ∀ c ∈ d.catalog.cycles, c.item.left.key = c.item.key := fun c hc =>
    c.item.key_left.trans (hfits c hc).key
  constructor
  case live =>
    intro c hc
    obtain ⟨before, hbefore, hlive, hleft⟩ := (hrecovered c.item).1 ⟨c, hc, rfl⟩
    rw [hleft, MainItem.state_left, (hfits before hbefore).state, hlive]
  case keys =>
    intro key
    constructor
    · rintro ⟨c, hc, rfl⟩
      obtain ⟨before, hbefore, hlive, hleft⟩ := (hrecovered c.item).1 ⟨c, hc, rfl⟩
      exact ⟨before, hbefore, hlive, by rw [hleft, hkey before hbefore]⟩
    · rintro ⟨before, hbefore, hlive, rfl⟩
      obtain ⟨c, hc, hleft⟩ := (hrecovered before.item.left).2 ⟨before, hbefore, hlive, rfl⟩
      exact ⟨c, hc, by rw [hleft, hkey before hbefore]⟩
  case flags =>
    intro c hc before hbefore _ hsame
    obtain ⟨b, hb, -, hleft⟩ := (hrecovered c.item).1 ⟨c, hc, rfl⟩
    have hkeys : b.item.key = before.item.key := by
      rw [hsame, hleft, hkey b hb]
    obtain rfl := hd.recordable.eq_of_key_eq hd.indexed hb hbefore hkeys
    rw [shown_recover (Prod.ext hrecover rfl) c, hd.shown_eq b, hleft,
      MainItem.assignedWrittenAtStop_left]

/-- The cycles of another kind are flagged as well exactly if the two kinds differ in no live cycle
that is written and was not flagged before. -/
theorem Flagged.congr_iff (h : Flagged d e kind) :
    Flagged d e kind' ↔ ∀ c ∈ d.catalog.cycles, c.item.state = .live →
      (d.shown c).disable.assignedWrittenAtStop = false → c.item.fileFlags.written = true →
        (kind c ↔ kind' c) := by
  constructor
  · intro h' before hbefore hlive hflag hwritten
    obtain ⟨c, hc, hkey⟩ := (h.keys before.item.key).2 ⟨before, hbefore, hlive, rfl⟩
    have hiff := (h.flags c hc before hbefore hlive hkey.symm).symm.trans
      (h'.flags c hc before hbefore hlive hkey.symm)
    simpa only [hflag, hwritten, Bool.false_eq_true, false_or, true_and] using hiff
  · intro hkinds
    refine ⟨h.live, h.keys, ?_⟩
    intro c hc before hbefore hlive hkey
    rw [h.flags c hc before hbefore hlive hkey]
    cases hflag : (d.shown before).disable.assignedWrittenAtStop with
    | true => simp only [true_or]
    | false =>
        have hsame := hkinds before hbefore hlive hflag
        exact or_congr_right (and_congr_right hsame)

end Recovered

/-- **Which recovered cycles are flagged**: in what is recovered from the image of a directory that
has met no failure, a cycle is flagged if it was flagged before, or was written and the number of its
assignments is no multiple of 2¹⁸.  The flags tell the cycles that somebody had assigned exactly if no
live cycle that is written and was not flagged before has a positive multiple of 2¹⁸ assignments. -/
theorem flagged_iff {config : Configuration} (hrange : config.defaultMaxRange < 2 ^ 18)
    {d : Directory} (h : Unfailing config d) :
    ∃ store, d.store = some store ∧ ∀ e, (recover config store.device.copy).1 = .ok e →
      Flagged d e (fun c => ¬ 2 ^ 18 ∣ FileCycle.total c.holders) ∧
      (Flagged d e (fun c => ∃ client, 0 < c.held client) ↔
        ∀ c ∈ d.catalog.cycles, c.item.state = .live →
          (d.shown c).disable.assignedWrittenAtStop = false → c.item.fileFlags.written = true →
            2 ^ 18 ∣ FileCycle.total c.holders → ∀ client, c.held client = 0) := by
  have hmirrored := h.mirrored hrange
  have htallied : ∀ c ∈ d.catalog.cycles, c.Tallied := by
    intro c hc
    obtain ⟨set, hset, hin⟩ := List.mem_flatMap.1 hc
    exact (h.reached.books.2.cycles set hset c hin).toTallied
  obtain ⟨store, hstore, hmirrors⟩ := hmirrored.mirrors
  refine ⟨store, hstore, ?_⟩
  intro e he
  have hcounted : Flagged d e fun c => ¬ 2 ^ 18 ∣ FileCycle.total c.holders :=
    (hmirrored.flagged hmirrors he).congr_iff.2 fun c hc _ _ _ => by rw [(htallied c hc).assigned]
  refine ⟨hcounted, hcounted.congr_iff.trans (forall₂_congr fun c hc => ?_)⟩
  have hheld := (htallied c hc).exists_held_iff
  have hnone : (∀ client, c.held client = 0) ↔ FileCycle.total c.holders = 0 := by
    simpa [Nat.pos_iff_ne_zero] using not_congr hheld
  rw [hheld, hnone]
  refine forall₃_congr fun _ _ _ => ?_
  constructor
  · intro hsame hdvd
    exact of_not_not fun hne => hsame.2 hne hdvd
  · intro hzero
    exact ⟨fun hnot hempty => hnot (hempty ▸ Nat.dvd_zero _), fun hne hdvd => hne (hzero hdvd)⟩

/-- A disk file whose first track was written. -/
def writtenDisk : List (Call × Request) := oneDisk ++ [(diskCall, .markWritten ⟨1⟩ 0 1)]

/-- It is written without a failure on a medium of four sectors. -/
theorem exists_writtenDisk : ∃ d, Unfailing {} d ∧
    (∀ store, d.store = some store → store.device.Healthy) ∧
      d.catalog = ((empty {}).after writtenDisk).catalog := by
  obtain ⟨d, hformat, hafter⟩ :=
    outlined_after {} { medium := .ofSectorCount 4 } rfl rfl fun _ _ _ => rfl
  have halike := alike_format hformat
  have hcreated : (d.handle diskCall (.createDisk diskRequest)).1 = .ok (.file ⟨1⟩) :=
    (hafter []).reply halike (.createDisk diskRequest) nofun rfl rfl (by decide +kernel)
  have hwritten : ((d.after oneDisk).handle diskCall (.markWritten ⟨1⟩ 0 1)).1 = .ok .done :=
    (hafter oneDisk).reply (halike.after oneDisk) (.markWritten ⟨1⟩ 0 1) nofun rfl rfl
      (by decide +kernel)
  obtain ⟨hquiet, htold⟩ : (d.after oneDisk).Quiet [(diskCall, .markWritten ⟨1⟩ 0 1)] ∧
      (d.after oneDisk).Told [(diskCall, .markWritten ⟨1⟩ 0 1)] :=
    quiet_cons_of_ok hwritten trivial trivial
  obtain ⟨hquiet, htold⟩ : d.Quiet writtenDisk ∧ d.Told writtenDisk :=
    quiet_cons_of_ok hcreated hquiet htold
  exact ⟨_, .after (.format hformat) hquiet htold,
    healthy_after (mirrored_format hformat).indexed
      (healthy_format (Device.healthy_blank 4) hformat) writtenDisk,
    (halike.after writtenDisk).catalog⟩

/-- So it is with this file, which its creator has assigned, is recovered and is flagged. -/
theorem flagged_iff_writtenDisk :
    ∃ d store e b, Unfailing {} d ∧ d.store = some store ∧
      (recover {} store.device.copy).1 = .ok e ∧
      (d.catalog.cycle? ⟨1⟩ = some b ∧ b.item.state = .live ∧ b.item.fileFlags.written = true ∧
        b.held diskCall.client = 1) ∧
      Flagged d e (fun c => ¬ 2 ^ 18 ∣ FileCycle.total c.holders) ∧
      (Flagged d e (fun c => ∃ client, 0 < c.held client) ↔
        ∀ c ∈ d.catalog.cycles, c.item.state = .live →
          (d.shown c).disable.assignedWrittenAtStop = false → c.item.fileFlags.written = true →
            2 ^ 18 ∣ FileCycle.total c.holders → ∀ client, c.held client = 0) := by
  obtain ⟨d, hunfailing, -, hcatalog⟩ := exists_writtenDisk
  have hmirrored := hunfailing.mirrored (by decide)
  obtain ⟨store, hstore, hflagged⟩ := flagged_iff (by decide) hunfailing
  obtain ⟨mirror, hmirror, hmirrors⟩ := hmirrored.mirrors
  obtain rfl : mirror = store := Option.some.inj (hmirror.symm.trans hstore)
  have hnumbered : ∀ set ∈ d.catalog.sets, set.Numbered := by
    rw [hcatalog]
    unfold FileSet.Numbered
    decide +kernel
  obtain ⟨e, he⟩ := hmirrored.recover_of_numbered hmirrors hnumbered
  obtain ⟨b, hb⟩ : ∃ b, d.catalog.cycle? ⟨1⟩ = some b ∧ b.item.state = .live ∧
      b.item.fileFlags.written = true ∧ b.held diskCall.client = 1 := by
    rw [hcatalog]
    exact ⟨_, rfl, by decide +kernel, by decide +kernel, by decide +kernel⟩
  exact ⟨d, mirror, e, b, hunfailing, hstore, he, hb, hflagged e he⟩

end Directory

end FileDirectory
