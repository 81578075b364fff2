/-
**Memory and medium never diverge in silence.**

Starting from a directory that was set up or recovered, whatever is asked of it and whatever attempts
at writing fail, each cycle that shows no directory error is on the medium exactly as the running
directory has it.

Main results:

* `FileDirectory.Directory.Operated.keeps` — every operation keeps this up;
* `FileDirectory.Directory.recorded_after` — it holds after every history.
-/

import FileDirectory.Proofs.Directory.Format
import FileDirectory.Proofs.Directory.Operations
import FileDirectory.Proofs.Recovery.Recovered

set_option autoImplicit false

namespace FileDirectory

open Catalog

/-- A change that is a step, once it has been recorded, keeps each cycle that shows no directory error on
the medium. -/
theorem Change.Steps.keeps {α : Type} {call : Call} {c : Catalog} {change : Change α} {store : Store}
    (h : change.Steps call c) (hc : c.Indexed) (hkeeps : store.Keeps c) :
    (store.record change.touched (change.catalog.find? change.touched)).1.Keeps change.catalog :=
  hkeeps.record hc (h.indexed hc) fun _ hne => h.mem_sets_iff hc hne

namespace Directory

/-- Every operation keeps each cycle that shows no directory error on the medium, whatever attempts
at writing fail. -/
theorem Operated.keeps {call : Call} {d d' : Directory} {trouble : Option Failure}
    (h : Operated call d d' trouble) (hd : d.catalog.Indexed)
    (hkeeps : ∀ store, d.store = some store → store.Keeps d.catalog) :
    ∀ store, d'.store = some store → store.Keeps d'.catalog := by
  intro store hstore
  cases h with
  | memory hnone hstep => cases hstore
  | @medium set space last _ _ before after trouble hsome hstep hrecord =>
      cases hstore
      have hframe : ∀ t : FileSet, t.name ≠ set.name →
          (t ∈ ({ d.catalog with space := space, lastFile := last }.put set).sets ↔
            t ∈ d.catalog.sets) :=
        fun t hne => mem_sets_put_of_ne (c := { d.catalog with space := space, lastFile := last })
          hd.ordered hne
      have hkept := (hkeeps before hsome).record hd (hstep.indexed hd) hframe
      rw [hrecord] at hkept
      exact hkept

/-- A directory keeps its store. -/
theorem Operated.store_isSome {call : Call} {d d' : Directory} {trouble : Option Failure}
    (h : Operated call d d' trouble) : d'.store.isSome = d.store.isSome := by
  cases h with
  | memory hnone _ => rw [hnone]
  | medium hsome _ _ => rw [hsome]; rfl

/-- **Each cycle that shows no directory error is on the medium** after every history of a directory
that was set up or recovered, in any pattern of failing attempts at writing: its lead item has a
sector that holds the current lead record, and it has two sectors and one for every seven extents,
which hold its current records. -/
theorem recorded_after {config : Configuration} {device : Device} {d : Directory}
    (hstart : format config device = .ok d ∨ ∃ device', recover config device = (.ok d, device'))
    (history : List (Call × Request)) :
    ∃ store, (d.after history).store = some store ∧
      ∀ set ∈ (d.after history).catalog.sets, ∀ c ∈ set.cycles,
        ((d.after history).shown c).disable.directoryError = false → store.Recorded set c := by
  have hfirst : d.catalog.Indexed ∧ ∃ store, d.store = some store ∧ store.Keeps d.catalog := by
    rcases hstart with hformat | ⟨device', hrecover⟩
    · obtain ⟨device', rfl, -⟩ := format_eq_ok hformat
      exact ⟨indexed_empty config, _, rfl, keeps_format config device'⟩
    · exact keeps_recover hrecover
  obtain ⟨hindexed, store₀, hstore₀, hkeeps₀⟩ := hfirst
  have hall : (∃ store, (d.after history).store = some store ∧
      store.Keeps (d.after history).catalog) ∧ (d.after history).catalog.Indexed := by
    refine after_induction (P := fun d => ∃ store, d.store = some store ∧ store.Keeps d.catalog) ?_
      hindexed ⟨store₀, hstore₀, hkeeps₀⟩ history
    rintro call e e' trouble heindexed ⟨store, hstore, hkeeps⟩ hop
    have hsome : e'.store.isSome = true := by
      rw [hop.store_isSome, hstore]
      rfl
    obtain ⟨store', hstore'⟩ := Option.isSome_iff_exists.1 hsome
    refine ⟨store', hstore', hop.keeps heindexed ?_ store' hstore'⟩
    intro other hother
    obtain rfl := Option.some.inj (hother.symm.trans hstore)
    exact hkeeps
  obtain ⟨⟨store, hstore, hkeeps⟩, -⟩ := hall
  refine ⟨store, hstore, ?_⟩
  intro set hset c hc hflag
  refine hkeeps.recorded set hset c hc ?_
  rw [shown, hstore] at hflag
  exact hflag

/-- Two tape files, of which a medium of four sectors has space for one. -/
def twoTapes : List (Call × Request) :=
  [(⟨⟨1, "RUN1", "USER"⟩, 5, none⟩, .createTape ⟨"Q", "A", .absolute 1, "", "", 0⟩),
    (⟨⟨1, "RUN1", "USER"⟩, 6, none⟩, .createTape ⟨"Q", "B", .absolute 1, "", "", 0⟩)]

theorem recorded_after_twoTapes :
    ∃ d, format {} { medium := .ofSectorCount 4 } = .ok d ∧
      ∃ store, (d.after twoTapes).store = some store ∧
        ∀ set ∈ (d.after twoTapes).catalog.sets, ∀ c ∈ set.cycles,
          ((d.after twoTapes).shown c).disable.directoryError = false → store.Recorded set c := by
  obtain ⟨d, hformat⟩ := format_of_healthy {} (Device.healthy_blank 4)
  exact ⟨d, hformat, recorded_after (Or.inl hformat) twoTapes⟩

end Directory

end FileDirectory
