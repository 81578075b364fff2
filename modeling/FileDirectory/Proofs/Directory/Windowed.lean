/-
**Every file set keeps to its window.**

In whatever state a directory is that was made empty, the cycles of a file set have numbers of their
own within the range of the set below the highest one, and what the directory counts agrees with
that.  No request changes the order of age among cycles that are there before it and after it.

Main definitions:

* `FileDirectory.Directory.wrapped` — a directory with a file set whose numbers go round the circle,
  for examples.

Main results:

* `FileDirectory.Directory.windows_of_reached` — every file set keeps to its window in every state;
* `FileDirectory.Directory.aged_handle`, `FileDirectory.Directory.aged_after` — over a request and over
  a history the cycles that stay become older together;
* `FileDirectory.Directory.windowed_of_reached` — what this says of the counts and the order.
-/

import FileDirectory.Proofs.Catalog.Window
import FileDirectory.Proofs.Directory.Reached

set_option autoImplicit false

namespace FileDirectory.Directory

open Catalog

variable {config : Configuration} {d : Directory}

/-- Every file set keeps to its window in every state of a directory that was made empty. -/
theorem windows_of_reached (hconfig : 1 ≤ config.defaultMaxRange) (h : Reached (Made config) d) :
    d.catalog.Indexed ∧ d.catalog.Windows config := by
  refine h.induction ?_ fun call c set space last hc hwindows hs => hs.windows hconfig hc hwindows
  intro d hmade
  rw [hmade.catalog_eq]
  exact ⟨indexed_empty config, windows_empty config⟩

/-- Over a request, even one that is many operations, the cycles that stay become older together. -/
theorem aged_handle (hc : d.catalog.Indexed) (h : ∀ set ∈ d.catalog.sets, set.OnCircle) (call : Call)
    (r : Request) :
    (d.handle call r).2.catalog.Indexed ∧
      (∀ set ∈ (d.handle call r).2.catalog.sets, set.OnCircle) ∧
      Aged d.catalog (d.handle call r).2.catalog := by
  obtain ⟨troubles, hrun, -⟩ := operations_handle hc call r
  -- each operation is compared with the state before the whole request
  refine hrun.catalog_induction (P := fun c => (∀ set ∈ c.sets, set.OnCircle) ∧ Aged d.catalog c) ?_
    ⟨hc, h, Aged.refl _⟩
  rintro call c set space last hc ⟨honCircle, haged⟩ hs
  exact ⟨forall_sets_put hc.ordered honCircle (hs.onCircle hc honCircle),
    haged.trans (hs.aged hc honCircle)⟩

/-- So they do over a history. -/
theorem aged_after (hc : d.catalog.Indexed) (h : ∀ set ∈ d.catalog.sets, set.OnCircle)
    (history : List (Call × Request)) :
    (d.after history).catalog.Indexed ∧
      (∀ set ∈ (d.after history).catalog.sets, set.OnCircle) ∧
      Aged d.catalog (d.after history).catalog := by
  induction history generalizing d with
  | nil => exact ⟨hc, h, Aged.refl _⟩
  | cons request history ih =>
      obtain ⟨call, r⟩ := request
      obtain ⟨hc', h', haged⟩ := aged_handle hc h call r
      obtain ⟨hc'', h'', haged'⟩ := ih hc' h'
      exact ⟨hc'', h'', haged.trans haged'⟩

/-- **Every file set keeps to its window in every state** of a directory that was made empty with
room for a cycle in a new file set.  What two states before and after a request list of a file set,
the newest first, agrees on the cycles that are in both. -/
theorem windowed_of_reached (hconfig : 1 ≤ config.defaultMaxRange) (h : Reached (Made config) d) :
    (∀ set ∈ d.catalog.sets, set.Windowed) ∧
      ∀ call r, ∀ set ∈ d.catalog.sets, ∀ set' ∈ (d.handle call r).2.catalog.sets,
        set'.name = set.name →
          (set.newestFirst.filter fun file => file ∈ set'.newestFirst) =
            set'.newestFirst.filter fun file => file ∈ set.newestFirst := by
  obtain ⟨hindexed, hwindows⟩ := windows_of_reached hconfig h
  refine ⟨?_, ?_⟩
  · intro set hset
    exact (hwindows.onCircle set hset).windowed (hwindows.spaced set hset)
      (hwindows.inStep set hset)
  · intro call r set hset set' hset' hname
    obtain ⟨hindexed', honCircle', haged⟩ := aged_handle hindexed hwindows.onCircle call r
    exact haged.filter_newestFirst hindexed hindexed' hset hset' hname
      (hwindows.onCircle set hset) (honCircle' set' hset')

/-- A tape file with the cycles 998, 999 and 1, the last of which is being cataloged. -/
def wrapped : Directory :=
  (empty {}).after [
    (⟨⟨1, "RUN1", "USER"⟩, 5, none⟩, .createTape ⟨"Q", "A", .absolute 998, "", "", 3⟩),
    (⟨⟨1, "RUN1", "USER"⟩, 6, none⟩, .catalog ⟨1⟩),
    (⟨⟨1, "RUN1", "USER"⟩, 7, none⟩, .createTape ⟨"Q", "A", .relative 1, "", "", 0⟩),
    (⟨⟨1, "RUN1", "USER"⟩, 8, none⟩, .catalog ⟨2⟩),
    (⟨⟨1, "RUN1", "USER"⟩, 9, none⟩, .createTape ⟨"Q", "A", .relative 1, "", "", 0⟩)]

theorem reached_wrapped : Reached (Made {}) wrapped := reached_after (.start (Or.inl rfl)) _

theorem windowed_of_reached_wrapped :
    (wrapped.catalog.sets.map fun set => (set.lead.highest, set.currentRange, set.cycleCount)) =
        [(1, 3, 2)] ∧
      (∀ set ∈ wrapped.catalog.sets, set.Windowed) ∧
      ∀ call r, ∀ set ∈ wrapped.catalog.sets, ∀ set' ∈ (wrapped.handle call r).2.catalog.sets,
        set'.name = set.name →
          (set.newestFirst.filter fun file => file ∈ set'.newestFirst) =
            set'.newestFirst.filter fun file => file ∈ set.newestFirst :=
  ⟨by decide +kernel, windowed_of_reached (by decide) reached_wrapped⟩

end FileDirectory.Directory
