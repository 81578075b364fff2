/-
**The numbers of every cycle agree with its tracks.**

In whatever state a directory is that was made empty, the granules of a cycle reach up to its highest
allocated track and stay below its maximum, and what is recorded as written is allocated.

Main definitions:

* `FileDirectory.Directory.positioned` — for examples, a directory with a file in positions that has a
  gap.

Main results:

* `FileDirectory.Directory.metered_of_reached` — the numbers of every cycle in every state.
-/

import FileDirectory.Proofs.Catalog.Granules
import FileDirectory.Proofs.Directory.Reached

set_option autoImplicit false

namespace FileDirectory.Directory

open Catalog

variable {config : Configuration} {d : Directory}

theorem tracksPerGranule_pos (hconfig : 1 ≤ config.tracksPerPosition) (granularity : Granularity) :
    0 < config.tracksPerGranule granularity := by
  cases granularity with
  | track => exact Nat.one_pos
  | position => exact hconfig

/-- **The numbers of every cycle agree with its allocation table in every state** of a directory that
was made empty with at least one track in a position: the granules reach up to the highest allocated
track and are at most the maximum, the highest track that was written is allocated and so within the
granules, the cycle is marked as written exactly if any track was, and a tape has nothing of this. -/
theorem metered_of_reached (hconfig : 1 ≤ config.tracksPerPosition) (h : Reached (Made config) d) :
    ∀ set ∈ d.catalog.sets, ∀ cycle ∈ set.cycles,
      cycle.item.Metered (config.tracksPerGranule cycle.item.characteristics.granularity) ∧
        cycle.item.highestTrackWritten ≤ cycle.item.highestGranule *
          config.tracksPerGranule cycle.item.characteristics.granularity ∧
        (cycle.item.fileType = .tape →
          cycle.item.highestGranule = 0 ∧ cycle.item.highestTrackWritten = 0) := by
  have hpos := tracksPerGranule_pos hconfig
  have hkept : d.catalog.config = config ∧ d.catalog.Divided ∧
      ∀ set ∈ d.catalog.sets, ∀ cycle ∈ set.cycles, cycle.item.Metered
        (d.catalog.config.tracksPerGranule cycle.item.characteristics.granularity) := by
    refine (h.induction (P := fun c => c.config = config ∧ c.Divided ∧ ∀ set ∈ c.sets,
      ∀ cycle ∈ set.cycles, cycle.item.Metered
        (c.config.tracksPerGranule cycle.item.characteristics.granularity)) ?_ ?_).2
    · intro d hmade
      rw [hmade.catalog_eq]
      exact ⟨indexed_empty config, rfl, divided_empty config, nofun⟩
    · rintro call c set space last hc ⟨rfl, hdivided, hmetered⟩ hs
      refine ⟨config_put _ _, hs.divided hdivided hc, ?_⟩
      rw [config_put]
      exact hs.metered hc hdivided hpos hmetered
  obtain ⟨rfl, -, hmetered⟩ := hkept
  intro set hset cycle hcycle
  have hitem := hmetered set hset cycle hcycle
  exact ⟨hitem, hitem.written_le (hpos _), hitem.of_tape⟩

/-- A directory with a file of at most five positions of four tracks each: the first is reserved, and
of the third two tracks are allocated, of which one was written. -/
def positioned : Directory :=
  (empty { tracksPerPosition := 4 }).after [
    (⟨⟨1, "RUN1", "USER"⟩, 5, none⟩, .createDisk ⟨"Q", "D", .absolute 1, .position, 1, 5⟩),
    (⟨⟨1, "RUN1", "USER"⟩, 6, none⟩, .allocateTracks ⟨1⟩ 9 2),
    (⟨⟨1, "RUN1", "USER"⟩, 7, none⟩, .markWritten ⟨1⟩ 9 1)]

theorem metered_of_reached_positioned :
    (positioned.catalog.cycles.map fun cycle =>
        (cycle.item.table.fileTracks.max?, cycle.item.highestGranule,
          cycle.item.highestTrackWritten)) = [(some 10, 3, 10)] ∧
      ∀ set ∈ positioned.catalog.sets, ∀ cycle ∈ set.cycles,
        cycle.item.Metered (({ tracksPerPosition := 4 } : Configuration).tracksPerGranule
          cycle.item.characteristics.granularity) ∧
        cycle.item.highestTrackWritten ≤ cycle.item.highestGranule *
          ({ tracksPerPosition := 4 } : Configuration).tracksPerGranule
            cycle.item.characteristics.granularity ∧
        (cycle.item.fileType = .tape →
          cycle.item.highestGranule = 0 ∧ cycle.item.highestTrackWritten = 0) :=
  ⟨by decide +kernel,
    metered_of_reached (by decide) (reached_after (.start (Or.inl rfl)) _)⟩

end FileDirectory.Directory
