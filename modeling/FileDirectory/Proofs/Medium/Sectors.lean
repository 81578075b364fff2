/-
**A medium is an array of sectors.**

Seen through `read`, the packed image of a medium is an array of sectors: replacing a sector shows
when that sector is read and nowhere else.  The same is said of a device, on which an attempt at
writing may fail, and of a run of attempts: a sector that is written at most once in the run holds
what was written, or the attempt is among those that failed and the sector holds what it held.

Main definitions:

* `FileDirectory.Device.copy` — a medium of its own with the image of a device, free of faults;
* `FileDirectory.Device.Healthy`, `FileDirectory.Device.Working` — no attempt at writing fails, or none
  of the next ones does.

Main results:

* `FileDirectory.Medium.read_put_self`, `FileDirectory.Medium.read_put_of_ne` — reading after
  replacing a sector;
* `FileDirectory.Device.write_cases` — what an attempt at writing does;
* `FileDirectory.Store.read_write_of_notMem`, `FileDirectory.Store.read_write_of_mem` — reading
  after a run of attempts.
-/

import FileDirectory.Proofs.Packed.Transfer
import FileDirectory.Store

set_option autoImplicit false

namespace FileDirectory

/-! ### Media -/

theorem Sector.ofWords_toList (s : Sector) : Sector.ofWords s.toList = s := by
  refine Vector.ext ?_
  intro i hi
  have hlen : i < s.toList.length := by rwa [Vector.length_toList]
  rw [Sector.getElem_ofWords, List.getD_eq_getElem?_getD, List.getElem?_eq_getElem hlen,
    Option.getD_some, Vector.getElem_toList]

namespace Medium

theorem length_packed_sector (content : Sector) :
    (Packed.packAll content.toList).length = sectorBytes := by
  rw [Packed.length_packAll, Vector.length_toList]
  rfl

/-- A sector of a medium ends inside its image. -/
theorem sector_fits {m : Medium} {sector : Nat} (h : sector < m.sectorCount) :
    sector * sectorBytes + sectorBytes ≤ m.bytes.size := by
  have hsize : (sector + 1) * sectorBytes ≤ m.bytes.size :=
    (Nat.le_div_iff_mul_le (by decide)).1 h
  rwa [Nat.succ_mul] at hsize

/-- A write is refused for want of the sector, or because writes are to fail. -/
theorem refusal?_eq_none {m : Medium} {sector : Nat} :
    m.refusal? sector = none ↔ sector < m.sectorCount ∧ m.failWrites = false := by
  rw [refusal?]
  by_cases h : sector < m.sectorCount <;> simp [h]

theorem read_eq_slice {m : Medium} {sector : Nat} (h : sector < m.sectorCount) :
    m.read sector =
      .ok (Sector.ofWords (Packed.unpackAll (slice m.bytes (sector * sectorBytes) sectorBytes))) :=
  if_pos h

/-- Replacing a sector replaces its bytes in the image. -/
theorem overwritten_put {m : Medium} {sector : Nat} (content : Sector)
    (h : sector < m.sectorCount) :
    Overwritten m.bytes (sector * sectorBytes) (Packed.packAll content.toList)
      (m.put sector content).bytes :=
  overwritten_overlay (by rw [length_packed_sector]; exact sector_fits h)

/-- A sector that was replaced reads as its new content. -/
theorem read_put_self {m : Medium} {sector : Nat} (content : Sector)
    (h : sector < m.sectorCount) : (m.put sector content).read sector = .ok content := by
  have heven : content.toList.length % 2 = 0 := by rw [Vector.length_toList]; rfl
  have hbytes := (overwritten_put content h).slice_self
  rw [length_packed_sector] at hbytes
  rw [read_eq_slice (by rwa [sectorCount_put]), hbytes, Packed.unpackAll_packAll heven,
    Sector.ofWords_toList]

/-- Replacing a sector leaves the others alone. -/
theorem read_put_of_ne {m : Medium} {sector other : Nat} (content : Sector)
    (h : sector < m.sectorCount) (hne : other ≠ sector) :
    (m.put sector content).read other = m.read other := by
  have hapart : other * sectorBytes + sectorBytes ≤ sector * sectorBytes ∨
      sector * sectorBytes + sectorBytes ≤ other * sectorBytes := by
    rw [sectorBytes_eq]
    omega
  by_cases hother : other < m.sectorCount
  · rw [read_eq_slice (by rwa [sectorCount_put]), read_eq_slice hother,
      (overwritten_put content h).slice_of_disjoint (by rwa [length_packed_sector])]
  · rw [read, read, sectorCount_put, if_neg hother, if_neg hother]

end Medium

/-! ### Devices -/

namespace Device

/-- A medium of its own with the image of a device, free of faults. -/
def copy (d : Device) : Device where
  medium := { bytes := d.medium.bytes }

@[simp] theorem sectorCount_copy (d : Device) : d.copy.sectorCount = d.sectorCount := rfl

@[simp] theorem read_copy (d : Device) (sector : Nat) :
    d.copy.read sector = d.medium.read sector := rfl

theorem read_eq_ok {d : Device} {sector : Nat} {content : Sector} :
    d.read sector = .ok content ↔
      d.failsRead sector = false ∧ d.medium.read sector = .ok content := by
  unfold read
  cases d.failsRead sector <;> simp

/-- No attempt at writing fails on the device, except for want of the sector. -/
def Healthy (d : Device) : Prop :=
  d.medium.failWrites = false ∧ ∀ attempt sector, d.failsWrite attempt sector = false

/-- No attempt at writing fails from the next one to that of a given number, except for want of the
sector. -/
def Working (d : Device) (limit : Nat) : Prop :=
  ∀ attempt, d.attempts ≤ attempt → attempt < limit →
    d.medium.failWrites = false ∧ ∀ sector, d.failsWrite attempt sector = false

theorem Healthy.working {d : Device} (h : d.Healthy) (limit : Nat) : d.Working limit :=
  fun attempt _ _ => ⟨h.1, h.2 attempt⟩

theorem healthy_blank (count : Nat) : Healthy { medium := .ofSectorCount count } :=
  ⟨rfl, fun _ _ => rfl⟩

theorem healthy_copy (d : Device) : d.copy.Healthy := ⟨rfl, fun _ _ => rfl⟩

/-- An attempt at writing replaces a sector that there is, or fails and leaves the medium alone. -/
theorem write_cases (d : Device) (sector : Nat) (content : Sector) :
    (d.write sector content = (.ok (),
        { d with medium := d.medium.put sector content, attempts := d.attempts + 1 }) ∧
      sector < d.sectorCount) ∨
    ∃ e, d.write sector content = (.error e, { d with attempts := d.attempts + 1 }) := by
  unfold write
  by_cases hfail : d.failsWrite d.attempts sector = true
  · rw [if_pos hfail]
    exact Or.inr ⟨_, rfl⟩
  · rw [if_neg hfail]
    cases hrefused : d.medium.refusal? sector with
    | some e => exact Or.inr ⟨e, rfl⟩
    | none => exact Or.inl ⟨rfl, (Medium.refusal?_eq_none.1 hrefused).1⟩

/-- On a working device a sector that there is gets written, and the device goes on working. -/
theorem Working.write {d : Device} {limit : Nat} (h : d.Working limit) (hlimit : d.attempts < limit)
    {sector : Nat} (content : Sector) (hsector : sector < d.sectorCount) :
    d.write sector content = (.ok (),
        { d with medium := d.medium.put sector content, attempts := d.attempts + 1 }) ∧
      Working { d with medium := d.medium.put sector content, attempts := d.attempts + 1 } limit := by
  have hlt : sector < d.medium.sectorCount := hsector
  obtain ⟨hmedium, hattempt⟩ := h d.attempts (Nat.le_refl _) hlimit
  have hrefused : d.medium.refusal? sector = none := Medium.refusal?_eq_none.2 ⟨hlt, hmedium⟩
  refine ⟨by simp [Device.write, hattempt, hrefused], ?_⟩
  intro attempt hnext hbelow
  exact h attempt (Nat.le_of_succ_le hnext) hbelow

/-- On a healthy device a sector that there is gets written. -/
theorem Healthy.write {d : Device} (h : d.Healthy) {sector : Nat} (content : Sector)
    (hsector : sector < d.sectorCount) :
    d.write sector content = (.ok (),
      { d with medium := d.medium.put sector content, attempts := d.attempts + 1 }) :=
  ((h.working (d.attempts + 1)).write (Nat.lt_succ_self _) content hsector).1

/-- A device stays healthy when a sector is replaced. -/
theorem Healthy.put {d : Device} (h : d.Healthy) (sector : Nat) (content : Sector) :
    Healthy { d with medium := d.medium.put sector content, attempts := d.attempts + 1 } :=
  ⟨h.1, h.2⟩

/-- A write that succeeds replaces a sector that there is. -/
theorem write_eq_ok {d after : Device} {sector : Nat} {content : Sector}
    (h : d.write sector content = (.ok (), after)) :
    sector < d.sectorCount ∧
      after = { d with medium := d.medium.put sector content, attempts := d.attempts + 1 } := by
  rcases write_cases d sector content with ⟨hw, hsector⟩ | ⟨e, hw⟩
  · rw [hw] at h
    exact ⟨hsector, (Prod.mk.inj h).2.symm⟩
  · rw [hw] at h
    cases h

/-- A write that fails leaves all but the count of the attempts as it is. -/
theorem write_eq_error {d after : Device} {sector : Nat} {content : Sector} {e : MediumError}
    (h : d.write sector content = (.error e, after)) :
    after = { d with attempts := d.attempts + 1 } := by
  rcases write_cases d sector content with ⟨hw, -⟩ | ⟨e', hw⟩
  · rw [hw] at h
    cases h
  · rw [hw] at h
    exact (Prod.mk.inj h).2.symm

end Device

/-! ### Runs of attempts -/

namespace Store

@[simp] theorem sectorCount_write (device : Device) (ws : List Write) :
    (write device ws).1.sectorCount = device.sectorCount := by
  fun_induction write device ws with
  | case1 device => rfl
  | case2 device w ws after h ih => rw [ih, (Device.write_eq_ok h).2]; simp [Device.sectorCount]
  | case3 device w ws e after h final failures heq ih =>
      rw [heq, Device.write_eq_error h] at ih
      exact ih

@[simp] theorem failsRead_write (device : Device) (ws : List Write) :
    (write device ws).1.failsRead = device.failsRead := by
  fun_induction write device ws with
  | case1 device => rfl
  | case2 device w ws after h ih => rw [ih, (Device.write_eq_ok h).2]
  | case3 device w ws e after h final failures heq ih =>
      rw [heq, Device.write_eq_error h] at ih
      exact ih

/-- Every attempt counts. -/
theorem attempts_write (device : Device) (ws : List Write) :
    (write device ws).1.attempts = device.attempts + ws.length := by
  fun_induction write device ws with
  | case1 device => rfl
  | case2 device w ws after hw ih =>
      obtain ⟨-, rfl⟩ := Device.write_eq_ok hw
      rw [ih, List.length_cons]
      dsimp only
      omega
  | case3 device w ws e after hw final failures heq ih =>
      rw [heq, Device.write_eq_error hw] at ih
      rw [List.length_cons]
      dsimp only at ih ⊢
      omega

/-- A sector that no attempt is for reads as before. -/
theorem read_write_of_notMem {device : Device} {ws : List Write} {sector : Nat}
    (h : sector ∉ ws.map Write.sector) :
    (write device ws).1.medium.read sector = device.medium.read sector := by
  fun_induction write device ws with
  | case1 device => rfl
  | case2 device w ws after hw ih =>
      obtain ⟨hne, hrest⟩ : sector ≠ w.sector ∧ sector ∉ ws.map Write.sector := by simpa using h
      obtain ⟨hlt, rfl⟩ := Device.write_eq_ok hw
      rw [ih hrest]
      exact Medium.read_put_of_ne _ hlt hne
  | case3 device w ws e after hw final failures heq ih =>
      obtain ⟨-, hrest⟩ : sector ≠ w.sector ∧ sector ∉ ws.map Write.sector := by simpa using h
      rw [heq, Device.write_eq_error hw] at ih
      exact ih hrest

/-- **A sector that one attempt is for reads as what was written**, if the attempt is not among
those that failed. -/
theorem read_write_of_mem {device : Device} {ws : List Write} (hnodup : (ws.map Write.sector).Nodup)
    {w : Write} (hw : w ∈ ws) (hok : ∀ f ∈ (write device ws).2, f.write ≠ w) :
    (write device ws).1.medium.read w.sector = .ok w.content := by
  fun_induction write device ws with
  | case1 device => cases hw
  | case2 device v ws after hv ih =>
      obtain ⟨hout, hrest⟩ := List.nodup_cons.1 hnodup
      obtain ⟨hlt, hafter⟩ := Device.write_eq_ok hv
      rcases List.mem_cons.1 hw with rfl | hw
      · rw [read_write_of_notMem hout, hafter]
        exact Medium.read_put_self _ hlt
      · exact ih hrest hw hok
  | case3 device v ws e after hv final failures heq ih =>
      obtain ⟨hout, hrest⟩ := List.nodup_cons.1 hnodup
      rw [heq] at ih
      rcases List.mem_cons.1 hw with rfl | hw
      · exact absurd rfl (hok ⟨w, e⟩ List.mem_cons_self)
      · exact ih hrest hw fun f hf => hok f (List.mem_cons_of_mem _ hf)

/-- A device stays healthy whatever it is written. -/
theorem healthy_write {device : Device} (h : device.Healthy) (ws : List Write) :
    (write device ws).1.Healthy := by
  fun_induction write device ws with
  | case1 device => exact h
  | case2 device w ws after hw ih =>
      obtain ⟨-, rfl⟩ := Device.write_eq_ok hw
      exact ih (h.put _ _)
  | case3 device w ws e after hw final failures heq ih =>
      rw [heq, Device.write_eq_error hw] at ih
      exact ih ⟨h.1, h.2⟩

/-- A run on a healthy device does not fail if there are the sectors it is for, and leaves the
device healthy. -/
theorem write_healthy {device : Device} (h : device.Healthy) {ws : List Write}
    (hws : ∀ w ∈ ws, w.sector < device.sectorCount) :
    (write device ws).2 = [] ∧ (write device ws).1.Healthy := by
  fun_induction write device ws with
  | case1 device => exact ⟨rfl, h⟩
  | case2 device w ws after hw ih =>
      obtain ⟨-, rfl⟩ := Device.write_eq_ok hw
      refine ih (h.put _ _) ?_
      intro v hv
      simpa [Device.sectorCount] using hws v (List.mem_cons_of_mem _ hv)
  | case3 device w ws e after hw final failures heq ih =>
      rw [h.write _ (hws w List.mem_cons_self)] at hw
      cases hw

/-- Neither does one on a device that works for as long, which goes on working. -/
theorem write_working {device : Device} {limit : Nat} (h : device.Working limit) {ws : List Write}
    (hws : ∀ w ∈ ws, w.sector < device.sectorCount) (hlimit : device.attempts + ws.length ≤ limit) :
    (write device ws).2 = [] ∧ (write device ws).1.Working limit := by
  fun_induction write device ws with
  | case1 device => exact ⟨rfl, h⟩
  | case2 device w ws after hw ih =>
      rw [List.length_cons] at hlimit
      obtain ⟨hwrite, hworking⟩ := h.write (by omega) w.content (hws w List.mem_cons_self)
      rw [hw] at hwrite
      obtain ⟨-, rfl⟩ := Prod.mk.inj hwrite
      refine ih hworking ?_ (by dsimp only; omega)
      intro v hv
      simpa [Device.sectorCount] using hws v (List.mem_cons_of_mem _ hv)
  | case3 device w ws e after hw final failures heq ih =>
      rw [List.length_cons] at hlimit
      obtain ⟨hwrite, -⟩ := h.write (by omega) w.content (hws w List.mem_cons_self)
      rw [hw] at hwrite
      cases hwrite

end Store

end FileDirectory
