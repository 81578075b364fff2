/-
**Recovery can be repeated.**

A directory is recovered from what another recovery has left behind as it was recovered the first
time: the same file sets, the same cycles under the same identifiers and the same free tracks.  Only
extents may be cut differently, since those that touch are merged when a table is built again.  A
recovery takes no sector that did not hold a record, so that nothing can be in its way.

Main definitions:

* `FileDirectory.CycleInfo.laidOut` — a cycle, with its extents as a set of tracks;
* `FileDirectory.Directory.Repeats` — a directory is another one but for how extents are cut;
* `FileDirectory.Directory.Spares` — no sector was taken into use that held no record.

Main results:

* `FileDirectory.Directory.repeats_of_rebuilt` — building tables again does not show;
* `FileDirectory.Directory.recover_repeats` — what recovery leaves behind is recovered alike.
-/

import FileDirectory.Proofs.Directory.Inherited
import FileDirectory.Proofs.Directory.Tabled
import FileDirectory.Proofs.Recovery.Settled
import Mathlib.Data.Finset.Dedup

set_option autoImplicit false

namespace FileDirectory

/-- What is told of a cycle, its extents as the set of its file tracks, each with the pack track that it
lies on. -/
def CycleInfo.laidOut (info : CycleInfo) : FileId × MainItem × Finset (Nat × Nat) :=
  (info.file, { info.item with table := {} }, info.item.table.pairs.toFinset)

/-! ### Tables that are built again -/

namespace FileSet

/-- The description of a file set does not tell the tables of its cycles. -/
theorem info_rebuilt (set : FileSet) : set.rebuilt.info = set.info := by
  have hrange : set.rebuilt.currentRange = set.currentRange := by
    unfold currentRange rebuilt
    rw [List.foldl_map]
    rfl
  have hcount : set.rebuilt.cycleCount = set.cycleCount := by
    unfold cycleCount rebuilt
    rw [List.countP_map]
    rfl
  have hcycles : set.rebuilt.byAge.map FileCycle.summary = set.byAge.map FileCycle.summary := by
    have hage : set.rebuilt.byAge = set.byAge.map FileCycle.rebuilt := by
      unfold byAge rebuilt
      rw [List.map_mergeSort]
      intro a _ b _
      rfl
    rw [hage, List.map_map]
    rfl
  unfold info
  rw [hrange, hcount, hcycles]
  rfl

theorem find?_rebuilt (set : FileSet) (file : FileId) :
    set.rebuilt.find? file = (set.find? file).map FileCycle.rebuilt := by
  unfold find? rebuilt
  rw [List.find?_map]
  rfl

end FileSet

namespace Catalog

theorem find?_rebuilt (c : Catalog) (name : SetName) :
    c.rebuilt.find? name = (c.find? name).map FileSet.rebuilt := by
  unfold find? rebuilt
  rw [List.find?_map]
  rfl

theorem locate?_rebuilt (c : Catalog) (file : FileId) :
    c.rebuilt.locate? file =
      (c.locate? file).map (Prod.map FileSet.rebuilt FileCycle.rebuilt) := by
  unfold locate? rebuilt
  rw [List.findSome?_map, List.map_findSome?]
  congr 1
  funext set
  rw [Function.comp_apply, Function.comp_apply, FileSet.find?_rebuilt]
  cases set.find? file <;> rfl

theorem files_rebuilt (c : Catalog) : c.rebuilt.files = c.files := by
  have hfiles : c.rebuilt.cycles.map FileCycle.file = c.cycles.map FileCycle.file := by
    unfold cycles rebuilt
    rw [List.flatMap_map, List.map_flatMap, List.map_flatMap]
    refine List.flatMap_congr fun set _ => ?_
    rw [FileSet.rebuilt, List.map_map]
    rfl
  unfold files
  rw [hfiles]

end Catalog

namespace Directory

open Recovery

/-- A directory has the file sets, the cycles and the free tracks of another one, and tells the same of
them but for how extents are cut. -/
structure Repeats (d e : Directory) : Prop where
  leads : e.catalog.sets.map FileSet.lead = d.catalog.sets.map FileSet.lead
  files : e.catalog.files = d.catalog.files
  space : e.catalog.space = d.catalog.space
  setInfo : ∀ call qualifier filename,
    e.setInfo call qualifier filename = d.setInfo call qualifier filename
  listSets : ∀ call, e.listSets call = d.listSets call
  cycleInfo : ∀ call file, (e.cycleInfo call file).map CycleInfo.laidOut =
    (d.cycleInfo call file).map CycleInfo.laidOut

/-- **Building tables again does not show** where every cycle is shown as it is. -/
theorem repeats_of_rebuilt {d e : Directory} (h : e.catalog = d.catalog.rebuilt)
    (hd : d.catalog.Indexed ∧ d.Tabled) (he : e.catalog.Indexed ∧ e.Tabled)
    (hascending : ∀ set ∈ d.catalog.sets, ∀ c ∈ set.cycles, c.item.table.Ascending)
    (hshown : ∀ c, d.shown c = c.item) (hshown' : ∀ c, e.shown c = c.item) : Repeats d e where
  leads := by
    rw [h, Catalog.rebuilt, List.map_map]
    rfl
  files := by rw [h, Catalog.files_rebuilt]
  space := by rw [h]; rfl
  setInfo := by
    intro call qualifier filename
    unfold setInfo
    refine bind_congr fun _ => bind_congr fun name => ?_
    rw [he.2.find?_eq he.1, hd.2.find?_eq hd.1, h, Catalog.find?_rebuilt]
    cases d.catalog.find? name with
    | none => rfl
    | some set => exact congrArg Except.ok set.info_rebuilt
  listSets := by
    intro call
    unfold listSets
    rw [he.2.listed_eq he.1, hd.2.listed_eq hd.1, h, Catalog.rebuilt, List.map_map]
    have hinfo : FileSet.info ∘ FileSet.rebuilt = FileSet.info := funext FileSet.info_rebuilt
    rw [hinfo]
  cycleInfo := by
    intro call file
    unfold cycleInfo
    rw [he.2.locate?_eq he.1, hd.2.locate?_eq hd.1, h, Catalog.locate?_rebuilt]
    cases call.check .cycleInfo 0 with
    | error f => rfl
    | ok _ =>
        cases hlocate : d.catalog.locate? file with
        | none => rfl
        | some found =>
            obtain ⟨set, c⟩ := found
            obtain ⟨hset, hc, -⟩ := Catalog.locate?_eq_some hlocate
            -- the extents may be cut in other places, and hold the same tracks
            have hpairs := (hascending set hset c hc).pairs_rebuilt
            show Except.ok (CycleInfo.laidOut ⟨file, e.shown c.rebuilt⟩) =
              Except.ok (CycleInfo.laidOut ⟨file, d.shown c⟩)
            rw [hshown, hshown']
            unfold CycleInfo.laidOut
            dsimp only
            rw [← List.toFinset_eq_of_perm _ _ hpairs]
            rfl

/-- A directory is on a medium that has taken no sector into use which held no record before: such a
sector is as it was, and free. -/
def Spares (d : Directory) (before after : Device) : Prop :=
  ∃ store, d.store = some store ∧ store.device = after ∧
    ∀ sector content, before.medium.read sector = .ok content → content.code = 0 →
      after.medium.read sector = .ok content ∧ store.inUse[sector]? = some false

/-- **Recovery can be repeated.**  It takes no sector that held no record, and what it leaves behind is
recovered alike. -/
theorem recover_repeats {config : Configuration} {device device' : Device} {d : Directory}
    (h : recover config device = (.ok d, device')) :
    d.Spares device device' ∧
      ∃ e, (recover config device'.copy).1 = .ok e ∧ d.Repeats e := by
  obtain ⟨-, store, hstore, -⟩ := keeps_recover h
  obtain ⟨e, he, hcatalog⟩ := recover_recovered h
  have hagain : recover config device'.copy = (.ok e, _) := Prod.ext he rfl
  have hd : Recovered config d := ⟨_, _, h⟩
  have he' : Recovered config e := ⟨_, _, hagain⟩
  exact ⟨⟨store, hstore, device_recover h hstore, fun _ _ => spared_recover h hstore⟩, e, he,
    repeats_of_rebuilt hcatalog ⟨hd.indexed, hd.tabled⟩ ⟨he'.indexed, he'.tabled⟩
      (divided_recover h).ascending (shown_recover h) (shown_recover hagain)⟩

/-- So it can where extents overlap. -/
theorem recover_repeats_overlapped :
    ∃ device d device', recover {} device = (.ok d, device') ∧
      device.medium.contents = overlapped ∧ d.Spares device device' ∧
      ∃ e, (recover {} device'.copy).1 = .ok e ∧ d.Repeats e := by
  obtain ⟨device, d, device', hrecover, hcontents⟩ := recover_overlapped
  exact ⟨device, d, device', hrecover, hcontents, recover_repeats hrecover⟩

end Directory

end FileDirectory
