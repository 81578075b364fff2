/-
**A store, sector by sector.**

All that becomes of a store can be told from the contents of the sectors and from which attempts at
writing which sectors fail: the packed image does not matter, nor does what is on it to what is staged.
An outline of a store keeps just this, as lists, and recording a file set in it comes to the same as
recording it on the medium.

Main definitions:

* `FileDirectory.Device.Outline`, `FileDirectory.Store.Outline` — what a device and a store are to
  writing;
* `FileDirectory.Device.Outline.write`, `FileDirectory.Store.Outline.record` — carrying writes out and
  recording a file set there.

Main results:

* `FileDirectory.Medium.contents_put` — replacing a sector replaces one item of the contents;
* `FileDirectory.Store.outline_write` — writes come to the same in the outline of a device;
* `FileDirectory.Store.outline_record` — so does recording a file set.
-/

import FileDirectory.Proofs.Recovery.Contents

set_option autoImplicit false

namespace FileDirectory

/-! ### The contents of a medium -/

namespace Medium

theorem getElem?_contents (m : Medium) (sector : Nat) :
    m.contents[sector]? = (m.read sector).toOption := by
  have hcontents : m.contents = (List.range m.sectorCount).map fun sector =>
      Sector.ofWords (Packed.unpackAll (m.bytes.extract (sector * sectorBytes)
        (sector * sectorBytes + sectorBytes)).toList) := by
    unfold contents
    rw [← List.filterMap_eq_map]
    refine List.filterMap_congr ?_
    intro sector hsector
    rw [read, if_pos (List.mem_range.1 hsector)]
    rfl
  rw [hcontents, List.getElem?_map]
  unfold read
  by_cases hlt : sector < m.sectorCount
  · rw [List.getElem?_range hlt, if_pos hlt]
    rfl
  · rw [List.getElem?_eq_none (by rw [List.length_range]; omega), if_neg hlt]
    rfl

@[simp] theorem length_contents (m : Medium) : m.contents.length = m.sectorCount := by
  refine Nat.le_antisymm (Nat.le_of_not_lt fun hlt => ?_) (Nat.le_of_not_lt fun hlt => ?_)
  · have hread := m.getElem?_contents m.sectorCount
    rw [List.getElem?_eq_getElem hlt, read_of_ge (Nat.le_refl _)] at hread
    cases hread
  · obtain ⟨content, hread⟩ := exists_read_iff.2 hlt
    have hnone := m.getElem?_contents m.contents.length
    rw [List.getElem?_eq_none (Nat.le_refl _), hread] at hnone
    cases hnone

/-- **Replacing a sector replaces one item of the contents.** -/
theorem contents_put {m : Medium} {sector : Nat} (content : Sector) (h : sector < m.sectorCount) :
    (m.put sector content).contents = m.contents.set sector content := by
  refine List.ext_getElem? fun other => ?_
  rw [getElem?_contents, List.getElem?_set, length_contents]
  by_cases heq : sector = other
  · subst heq
    rw [if_pos rfl, if_pos h, read_put_self content h]
    rfl
  · rw [if_neg heq, read_put_of_ne content h fun hother => heq hother.symm, getElem?_contents]

end Medium

/-! ### Outlines -/

/-- What a device is to writing. -/
@[ext]
structure Device.Outline where
  /-- The contents of its sectors. -/
  contents : List Sector
  /-- Whether the attempt of a given number fails to write a sector. -/
  fails : Nat → Nat → Bool
  /-- How many attempts at writing have been made. -/
  attempts : Nat

namespace Device

/-- The outline of a device. -/
def outline (d : Device) : Outline where
  contents := d.medium.contents
  fails := fun attempt sector => d.failsWrite attempt sector || d.medium.failWrites
  attempts := d.attempts

/-- Carries writes out in order, on through failures; also says which failed. -/
def Outline.write (o : Outline) : List Write → Outline × List Store.WriteFailure
  | [] => (o, [])
  | w :: ws =>
    if o.fails o.attempts w.sector then
      let (after, failures) := write { o with attempts := o.attempts + 1 } ws
      (after, { write := w, error := .writeFailed w.sector } :: failures)
    else
      write { o with contents := o.contents.set w.sector w.content, attempts := o.attempts + 1 } ws

end Device

/-- An attempt at writing a sector that there is fails or does not, as the outline says. -/
theorem Device.write_eq {d : Device} {sector : Nat} (content : Sector) (h : sector < d.sectorCount) :
    d.write sector content =
      if d.outline.fails d.attempts sector then
        (.error (.writeFailed sector), { d with attempts := d.attempts + 1 })
      else
        (.ok (), { d with medium := d.medium.put sector content, attempts := d.attempts + 1 }) := by
  have hlt : sector < d.medium.sectorCount := h
  have hfails : d.outline.fails d.attempts sector =
    (d.failsWrite d.attempts sector || d.medium.failWrites) := rfl
  rw [hfails]
  unfold write Medium.refusal?
  rw [if_pos hlt]
  cases d.failsWrite d.attempts sector <;> cases d.medium.failWrites <;> rfl

namespace Store

/-- **Writes to sectors that there are come to the same in the outline of a device.** -/
theorem outline_write (device : Device) (ws : List Write)
    (hws : ∀ w ∈ ws, w.sector < device.sectorCount) :
    ((write device ws).1.outline, (write device ws).2) = device.outline.write ws := by
  induction ws generalizing device with
  | nil => rfl
  | cons w ws ih =>
      obtain ⟨hlt, hrest⟩ := List.forall_mem_cons.1 hws
      have hattempts : device.outline.attempts = device.attempts := rfl
      rw [write, Device.Outline.write, Device.write_eq w.content hlt, hattempts]
      cases device.outline.fails device.attempts w.sector with
      | true =>
          have hnext := ih { device with attempts := device.attempts + 1 } hrest
          change _ = Device.Outline.write
            { device.outline with attempts := device.attempts + 1 } ws at hnext
          rw [if_pos rfl, if_pos rfl, ← hnext]
      | false =>
          have hnext := ih { device with
            medium := device.medium.put w.sector w.content
            attempts := device.attempts + 1 } fun v hv =>
              Nat.lt_of_lt_of_eq (hrest v hv) (Medium.sectorCount_put _ _ _).symm
          unfold Device.outline at hnext ⊢
          rw [Medium.contents_put w.content hlt] at hnext
          exact hnext

/-- What a store is to recording. -/
structure Outline where
  device : Device.Outline
  inUse : SectorMap
  /-- The sectors of each file set. -/
  placed : List (SetName × Placement) := []
  /-- The cycles whose records may differ from the catalog. -/
  suspect : List FileId := []

/-- The outline of a store. -/
def outline (s : Store) : Outline where
  device := s.device.outline
  inUse := s.inUse
  placed := s.placed
  suspect := s.suspect

/-- What is staged does not depend on what is on the medium. -/
theorem stage_device (s : Store) (device : Device) (name : SetName) (set? : Option FileSet) :
    stage { s with device := device } name set? = s.stage name set? := rfl

namespace Outline

/-- A store of an outline, on a medium that has no sectors. -/
def bare (o : Outline) : Store where
  device := { medium := .ofSectorCount 0 }
  inUse := o.inUse
  placed := o.placed
  suspect := o.suspect

/-- Brings the sectors up to date with a file set, or with its absence; also says what went wrong. -/
def record (o : Outline) (name : SetName) (set? : Option FileSet) : Outline × Option Failure :=
  let (p, staging) := o.bare.stage name set?
  let (device, failures) := o.device.write staging.writes
  let cleared := staging.freed.filter fun sector =>
    !(failures.any fun f => f.write.sector = sector)
  let files := set?.toList.flatMap fun set => set.cycles.map FileCycle.file
  let doubts := staging.unplaced ++ doubtful failures files
  ({
    device := device
    inUse := staging.inUse.release cleared
    placed := (o.bare.place name p).placed
    suspect := o.suspect ++ doubts.filter fun file => !o.suspect.contains file },
    report failures staging.shortages)

end Outline

/-- **Recording a file set comes to the same in the outline of a store**, if what is staged is for
sectors that there are. -/
theorem outline_record (s : Store) (name : SetName) (set? : Option FileSet)
    (hws : ∀ w ∈ (s.stage name set?).2.writes, w.sector < s.device.sectorCount) :
    ((s.record name set?).1.outline, (s.record name set?).2) = s.outline.record name set? := by
  have hstage : s.outline.bare.stage name set? = s.stage name set? := stage_device s _ name set?
  unfold Outline.record record flush
  rw [hstage]
  dsimp only [place]
  rw [show s.outline.device = s.device.outline from rfl, ← outline_write _ _ hws]
  rfl

end Store

end FileDirectory
