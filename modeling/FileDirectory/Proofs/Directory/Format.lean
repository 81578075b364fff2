/-
**A directory that was just set up.**

Setting a directory up clears every sector of its medium.  It succeeds on a device on which no
attempt at writing fails; whenever it succeeds, every sector is clear and free.

Main results:

* `FileDirectory.Directory.read_clear` — cleared sectors read as zeros;
* `FileDirectory.Directory.format_of_healthy` — setting up succeeds on a healthy device;
* `FileDirectory.Directory.format_eq_ok` — what setting up gives.
-/

import FileDirectory.Proofs.Store.Recorded
import FileDirectory.Directory

set_option autoImplicit false

namespace FileDirectory.Directory

/-! ### Clearing sectors -/

/-- Clearing sectors leaves the medium with its sectors and changes no others. -/
theorem read_clear {device device' : Device} {sectors : List Nat}
    (h : clear device sectors = .ok device') :
    device'.sectorCount = device.sectorCount ∧
      (∀ sector ∈ sectors, device'.medium.read sector = .ok Sector.zero) ∧
      ∀ sector, sector ∉ sectors → device'.medium.read sector = device.medium.read sector := by
  induction sectors generalizing device with
  | nil =>
      cases h
      exact ⟨rfl, fun _ h => (by cases h), fun _ _ => rfl⟩
  | cons first sectors ih =>
      rw [clear] at h
      cases hwrite : device.write first Sector.zero with
      | mk outcome after =>
          rw [hwrite] at h
          cases outcome with
          | error e => cases h
          | ok u =>
              obtain ⟨hlt, rfl⟩ := Device.write_eq_ok hwrite
              obtain ⟨hcount, hin, hout⟩ := ih h
              refine ⟨?_, ?_, ?_⟩
              · rw [hcount]
                exact Medium.sectorCount_put _ _ _
              · intro sector hsector
                by_cases hlater : sector ∈ sectors
                · exact hin sector hlater
                · rcases List.mem_cons.1 hsector with rfl | hbad
                  · rw [hout sector hlater]
                    exact Medium.read_put_self _ hlt
                  · exact absurd hbad hlater
              · intro sector hsector
                obtain ⟨hne, hlater⟩ : sector ≠ first ∧ sector ∉ sectors := by simpa using hsector
                rw [hout sector hlater]
                exact Medium.read_put_of_ne _ hlt hne

/-- On a healthy device sectors that there are can be cleared. -/
theorem clear_of_healthy {device : Device} (h : device.Healthy) (sectors : List Nat)
    (hsectors : ∀ sector ∈ sectors, sector < device.sectorCount) :
    ∃ device', clear device sectors = .ok device' ∧ device'.Healthy := by
  induction sectors generalizing device with
  | nil => exact ⟨device, rfl, h⟩
  | cons first sectors ih =>
      have hwrite := h.write Sector.zero (hsectors first List.mem_cons_self)
      rw [clear, hwrite]
      refine ih (h.put first Sector.zero) ?_
      intro sector hsector
      refine Nat.lt_of_lt_of_eq (hsectors sector (List.mem_cons_of_mem _ hsector)) ?_
      exact (Medium.sectorCount_put _ _ _).symm

/-! ### Setting up -/

/-- Setting up succeeds on a healthy device. -/
theorem format_of_healthy (config : Configuration) {device : Device} (h : device.Healthy) :
    ∃ d, format config device = .ok d := by
  obtain ⟨device', hclear, -⟩ := clear_of_healthy h (List.range device.sectorCount)
    fun sector hsector => List.mem_range.1 hsector
  unfold format
  rw [hclear]
  exact ⟨_, rfl⟩

/-- **A directory that was just set up** is empty, and every sector is clear and free. -/
theorem format_eq_ok {config : Configuration} {device : Device} {d : Directory}
    (h : format config device = .ok d) :
    ∃ device', d = {
        catalog := Catalog.empty config
        store := some { device := device', inUse := List.replicate device'.sectorCount false } } ∧
      ∀ sector < device'.sectorCount, device'.medium.read sector = .ok Sector.zero := by
  unfold format at h
  cases hclear : clear device (List.range device.sectorCount) with
  | error e =>
      rw [hclear] at h
      cases h
  | ok device' =>
      rw [hclear] at h
      obtain ⟨hcount, hin, -⟩ := read_clear hclear
      cases h
      refine ⟨device', rfl, ?_⟩
      intro sector hsector
      exact hin sector (List.mem_range.2 (hcount ▸ hsector))

/-- Nothing is recorded by a directory that was just set up. -/
theorem keeps_format (config : Configuration) (device : Device) :
    Store.Keeps (Catalog.empty config)
      { device := device, inUse := List.replicate device.sectorCount false } where
  length_inUse := List.length_replicate
  nodup_names := List.nodup_nil
  names := by
    intro name
    constructor
    · intro h
      cases h
    · rintro ⟨set, hset, -⟩
      cases hset
  nodup_owned := List.nodup_nil
  inUse_of_owned := by intro sector hsector; cases hsector
  files := by intro set hset; cases hset
  headless := by intro name _ entry hentry; cases hentry
  recorded := by intro set hset; cases hset

end FileDirectory.Directory
