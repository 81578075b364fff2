/-
**Recovery is faithful.**

After a history that meets no error of the medium, what recovery gives from a copy of the image is the
running directory without its assignments: the file sets that have a live cycle, with exactly their live
cycles and the tracks of these, under new identifiers.

That every error is told is assumed in so many words, since releasing everything does not see to it: if
its deadline passes, that is all that it replies, whatever went wrong before.

Main definitions:

* `FileDirectory.MainItem.resumed` — a main item once nobody has the cycle assigned any more;
* `FileDirectory.Directory.Resumed` — a directory that goes on with the live cycles of another.

Main results:

* `FileDirectory.Directory.resumed_after` — what is recovered is the running directory, resumed;
* `FileDirectory.Directory.not_resumed_impatient` — it need not be if an error was not told.
-/

import FileDirectory.Proofs.Directory.Admitted

set_option autoImplicit false

namespace FileDirectory

open Catalog Recovery

/-! ### Resumed items -/

/-- A main item once nobody has the cycle assigned any more: a cycle that was assigned and had been
written is marked.  Of how often it was assigned only the low eighteen bits are recorded. -/
def MainItem.resumed (m : MainItem) : MainItem :=
  { m with
    assigned := 0
    disable := { m.disable with
      assignedWrittenAtStop :=
        m.disable.assignedWrittenAtStop || (m.assigned % 2 ^ 18 ≠ 0 && m.fileFlags.written) } }

/-- What is left of an item that fits into its records is the item, resumed. -/
theorem MainItem.Fits.left_eq {m : MainItem} (h : m.Fits) (ht : m.Timed) : m.left = m.resumed := by
  unfold left
  rw [h.stored_eq ht, h.backup]
  rfl

/-- The live cycles of a file set by number. -/
def FileSet.liveByNumber (set : FileSet) : List FileCycle :=
  set.byNumber.filter fun c => c.item.state = .live

theorem FileSet.liveByNumber_eq_nil {set : FileSet} :
    set.liveByNumber = [] ↔ (set.cycles.any fun c => c.item.state = .live) = false := by
  unfold liveByNumber
  rw [List.filter_eq_nil_iff, List.any_eq_false]
  simp only [Store.mem_byNumber]

/-! ### Starting again -/

namespace Recovery

theorem files_cyclesFrom (last : Nat) (items : List MainItem) :
    (cyclesFrom last items).map FileCycle.file =
      (List.range' (last + 1) items.length).map FileId.mk := by
  induction items generalizing last with
  | nil => rfl
  | cons item items ih => rw [cyclesFrom, List.map_cons, ih, List.length_cons, List.range'_succ]; rfl

/-- The cycles of file sets that start again are numbered on. -/
theorem files_setsFrom (last : Nat) (rs : List Remains) :
    ((setsFrom last rs).flatMap FileSet.cycles).map FileCycle.file =
      (List.range' (last + 1) (rs.flatMap Remains.items).length).map FileId.mk := by
  induction rs generalizing last with
  | nil => rfl
  | cons r rs ih =>
      rw [setsFrom, List.flatMap_cons, List.map_append, ih, files_cyclesFrom, List.flatMap_cons,
        List.length_append, ← List.map_append]
      congr 1
      rw [Nat.add_right_comm, List.range'_append_1]

end Recovery

/-! ### Resumed directories -/

namespace Directory

/-- A directory that goes on with the live cycles of another. -/
structure Resumed (d e : Directory) : Prop where
  /-- The file sets that have a live cycle, each with its lead item and exactly its live cycles. -/
  sets : e.catalog.sets.map (fun set => (set.lead, set.cycles.map e.shown)) =
    (d.catalog.sets.filter fun set => set.cycles.any fun c => c.item.state = .live).map fun set =>
      ({ set.lead with plusOneExists := false }, set.liveByNumber.map fun c => (d.shown c).resumed)
  /-- The cycles are in the order of their names and numbers. -/
  ordered : e.catalog.cycles.Pairwise fun a b => compare a.item.key b.item.key = .lt
  /-- They are numbered from one in this order. -/
  files : e.catalog.cycles.map FileCycle.file =
    (List.range' 1 e.catalog.cycles.length).map FileId.mk
  /-- Nobody is cataloging a cycle or has one assigned. -/
  idle : ∀ c ∈ e.catalog.cycles, c.creator = none ∧ c.holders = []
  /-- The free tracks of the pack are those that no live cycle has. -/
  free : ∀ track, track ∈ tracksIn e.catalog.space.regions ↔
    track < d.catalog.space.capacity ∧ track ∉ d.catalog.liveTracks
  /-- They are counted right. -/
  freeTracks : e.freeTracks + d.catalog.liveTracks.length = d.catalog.space.capacity

section Faithful

variable {config : Configuration} {d e : Directory} {store : Store}

/-- The cycles of a directory that shows no errors are shown as they are. -/
theorem Mirrored.shown_eq (h : Mirrored config d) (c : FileCycle) : d.shown c = c.item := by
  obtain ⟨store, hstore, hmirrors⟩ := h.mirrors
  unfold shown
  rw [hstore]
  exact Store.shown_of_suspect_eq_nil hmirrors.suspect c

/-- What is left of the file sets of a mirrored directory are its live cycles, resumed. -/
theorem Mirrored.left_eq (h : Mirrored config d) (htimed : Timed d) :
    d.catalog.left.map (fun r => (r.lead, r.items)) =
      (d.catalog.sets.filter fun set => set.cycles.any fun c => c.item.state = .live).map fun set =>
        ({ set.lead with plusOneExists := false },
          set.liveByNumber.map fun c => (d.shown c).resumed) := by
  have hitems : ∀ set ∈ d.catalog.sets, (set.liveByNumber.map fun c => c.item.left) =
      set.liveByNumber.map fun c => (d.shown c).resumed := by
    intro set hset
    refine List.map_congr_left ?_
    intro c hc
    have hin : c ∈ set.cycles := Store.mem_byNumber.1 (List.mem_filter.1 hc).1
    rw [h.shown_eq c, (h.recordable.items set hset c hin).left_eq (htimed set hset c hin)]
  unfold Catalog.left
  rw [← List.filterMap_eq_map, List.filterMap_filterMap, ← List.filterMap_eq_map,
    List.filterMap_filter]
  refine List.filterMap_congr ?_
  intro set hset
  rw [FileSet.left]
  dsimp only
  have hleft : ((set.byNumber.filter fun c => c.item.state = .live).map fun c => c.item.left) =
      set.liveByNumber.map fun c => (d.shown c).resumed := hitems set hset
  rw [hleft]
  by_cases hlive : (set.cycles.any fun c => c.item.state = .live) = true
  · have hsome : (set.liveByNumber.map fun c => (d.shown c).resumed) ≠ [] := by
      rw [Ne, List.map_eq_nil_iff, FileSet.liveByNumber_eq_nil, hlive]
      exact Bool.noConfusion
    rw [if_neg hsome, if_pos hlive]
    rfl
  · have hnone : (set.liveByNumber.map fun c => (d.shown c).resumed) = [] := by
      rw [List.map_eq_nil_iff, FileSet.liveByNumber_eq_nil]
      exact Bool.eq_false_iff.2 hlive
    rw [if_pos hnone, if_neg hlive]
    rfl

/-- Cycles that are shown as the live cycles of a file set, resumed, are in the order of their
numbers. -/
theorem Mirrored.ordered_cycles (h : Mirrored config d) {set : FileSet} (hset : set ∈ d.catalog.sets)
    (hshown : ∀ c, e.shown c = c.item) {cycles : List FileCycle}
    (heq : (set.liveByNumber.map fun c => (d.shown c).resumed) = cycles.map e.shown) :
    cycles.Pairwise fun a b => compare a.item.key b.item.key = .lt := by
  have hkeys : cycles.map (fun c => c.item.key) = set.liveByNumber.map fun c => c.item.key := by
    have hmap := congrArg (List.map MainItem.key) heq
    rw [List.map_map, List.map_map, funext hshown] at hmap
    refine hmap.symm.trans (List.map_congr_left ?_)
    intro c _
    show (d.shown c).key = c.item.key
    rw [h.shown_eq c]
  have hsorted : set.liveByNumber.Pairwise fun a b => compare a.item.key b.item.key = .lt :=
    (pairwise_lt_mergeSort (fun c : FileCycle => c.item.key) (h.recordable.keys set hset)).filter _
  have hmapped : (cycles.map fun c => c.item.key).Pairwise fun a b => compare a b = .lt := by
    rw [hkeys]
    exact List.pairwise_map.2 hsorted
  exact List.pairwise_map.1 hmapped

/-- **A directory that goes on with what is left of another** goes on with its live cycles. -/
theorem Mirrored.resumed (h : Mirrored config d) (htimed : Timed d) (hindexed : e.catalog.Indexed)
    (hshown : ∀ c, e.shown c = c.item) (hrestart : restart config d.catalog.left = .ok e.catalog) :
    Resumed d e := by
  have hsets := sets_of_restart hrestart
  have hcycles : e.catalog.cycles = (setsFrom 0 d.catalog.left).flatMap FileSet.cycles := by
    rw [Catalog.cycles, hsets]
  obtain ⟨e', hrestart', hsound, hperm⟩ := restart_left h.partitioned h.capacity
  obtain rfl : e' = e.catalog := Except.ok.inj (hrestart'.symm.trans hrestart)
  have hleft : e.catalog.sets.map (fun set => (set.lead, set.cycles.map e.shown)) =
      (d.catalog.sets.filter fun set => set.cycles.any fun c => c.item.state = .live).map fun set =>
        ({ set.lead with plusOneExists := false },
          set.liveByNumber.map fun c => (d.shown c).resumed) := by
    have hitems : d.catalog.left.map (fun r => (r.lead, r.items)) =
        (setsFrom 0 d.catalog.left).map fun set => (set.lead, set.cycles.map FileCycle.item) := by
      conv_lhs => rw [← remains_setsFrom 0 d.catalog.left]
      rw [List.map_map]
      rfl
    rw [← h.left_eq htimed, hitems, hsets, funext hshown]
  constructor
  case sets => exact hleft
  case ordered =>
    -- the numbers tell the order within a set, the names that of the sets
    refine List.pairwise_flatMap.2 ⟨?_, (List.Pairwise.and_mem.1 hindexed.ordered).imp ?_⟩
    · intro set hset
      obtain ⟨t, ht, heq⟩ := List.mem_map.1 (hleft ▸ List.mem_map_of_mem hset)
      exact h.ordered_cycles (List.mem_filter.1 ht).1 hshown (Prod.mk.inj heq).2
    · rintro s t ⟨hs, ht, hlt⟩ a ha b hb
      show (compare a.item.key.set b.item.key.set).then _ = .lt
      rw [hindexed.named s hs a ha, hindexed.named t ht b hb, hlt]
      rfl
  case files =>
    have hfiles := files_setsFrom 0 d.catalog.left
    have hlength := congrArg List.length hfiles
    rw [List.length_map, List.length_map, List.length_range'] at hlength
    rw [hcycles, hfiles, hlength]
  case idle =>
    intro c hc
    rw [hcycles] at hc
    obtain ⟨set, hset, hin⟩ := List.mem_flatMap.1 hc
    obtain ⟨first, items, heq⟩ := mem_setsFrom hset
    exact mem_cyclesFrom (heq ▸ hin)
  case free =>
    intro track
    -- a track is of a live cycle, or free, and not both
    have hnodup := hperm.nodup_iff.1 List.nodup_range
    obtain ⟨-, -, hapart⟩ := List.nodup_append.1 hnodup
    have hmem := hperm.mem_iff (a := track)
    rw [List.mem_range, List.mem_append] at hmem
    constructor
    · intro htrack
      exact ⟨hmem.2 (Or.inr htrack), fun hlive => hapart track hlive track htrack rfl⟩
    · rintro ⟨hlt, hnot⟩
      exact (hmem.1 hlt).resolve_left hnot
  case freeTracks =>
    have hlength := hperm.length_eq
    rw [List.length_range, List.length_append] at hlength
    rw [freeTracks, hsound.free_eq, hlength, Nat.add_comm]

end Faithful

/-- **Recovery is faithful**: after a history in which no reply is an error of the medium, and in which
no request that its deadline ended had met one, what is recovered from a copy of the image is the
running directory, resumed. -/
theorem resumed_after {config : Configuration} (hrange : config.defaultMaxRange < 2 ^ 18)
    {device : Device} {d : Directory} (hformat : format config device = .ok d)
    {history : List (Call × Request)} (hquiet : d.Quiet history) (htold : d.Told history)
    (hclock : ∀ request ∈ history, request.1.now < 2 ^ 36) :
    ∃ store, (d.after history).store = some store ∧
      ∀ e, (recover config store.device.copy).1 = .ok e → (d.after history).Resumed e := by
  have hmirrored := mirrored_after hrange hformat hquiet htold
  obtain ⟨store, hstore, hmirrors⟩ := hmirrored.mirrors
  refine ⟨store, hstore, ?_⟩
  intro e he
  have hrecover : recover config store.device.copy = (.ok e, (recover config store.device.copy).2) :=
    Prod.ext he rfl
  exact hmirrored.resumed (timed_after hformat hclock) (keeps_recover hrecover).1
    (shown_recover hrecover) ((hmirrored.recover_iff hmirrors).1 ⟨e, he, rfl⟩).2

theorem resumed_after_oneDisk :
    ∃ d, format {} { medium := .ofSectorCount 4 } = .ok d ∧
      ∃ store, (d.after oneDisk).store = some store ∧
        ∃ e, (recover {} store.device.copy).1 = .ok e ∧ (d.after oneDisk).Resumed e := by
  obtain ⟨d, hformat, hquiet, htold⟩ := quiet_oneDisk
  obtain ⟨recorded, hrecorded, store, hstore, e, he⟩ := recover_oneDisk
  obtain rfl : recorded = d := Except.ok.inj (hrecorded.symm.trans hformat)
  obtain ⟨resumed, hsame, hresumed⟩ := resumed_after (by decide) hformat hquiet htold (by decide)
  obtain rfl : resumed = store := Option.some.inj (hsame.symm.trans hstore)
  exact ⟨recorded, hformat, resumed, hstore, e, he, hresumed e he⟩

/-! ### A failure that nobody is told of -/

/-- The run that created two tapes releases everything, in a call whose deadline passes after the first
of the two releases. -/
def impatient : Call := ⟨⟨1, "RUN1", "USER"⟩, 7, some 3⟩

/-- The run holds both tapes. -/
theorem heldBy_twoTapes : ((empty {}).after twoTapes).heldBy impatient.client = [⟨1⟩, ⟨2⟩] := by
  unfold heldBy
  dsimp only
  -- sorting does not reduce, but what is in order stays as it is
  rw [List.mergeSort_of_pairwise (by decide +kernel)]
  decide +kernel

theorem releaseAll_twoTapes : ((empty {}).after twoTapes).handle impatient .releaseAll =
    replied .released (releaseEach impatient ((empty {}).after twoTapes) 1 0 none [⟨1⟩, ⟨2⟩]) := by
  rw [← heldBy_twoTapes]
  rfl

/-- What is recorded of the release is what is recorded of these two in turn. -/
theorem changes_releaseAll : (empty {}).changes (twoTapes ++ [(impatient, .releaseAll)]) =
    (empty {}).changes twoTapes ++
      traceEach changed impatient ((empty {}).after twoTapes) 1 [⟨1⟩, ⟨2⟩] := by
  have htrace : ((empty {}).after twoTapes).trace changed impatient .releaseAll =
      traceEach changed impatient ((empty {}).after twoTapes) 1 [⟨1⟩, ⟨2⟩] := by
    rw [← heldBy_twoTapes]
    rfl
  rw [changes_append, changes, htrace, changes, List.append_nil]

/-- A device of eight sectors that fails from the fifteenth attempt at writing on: the sectors are
cleared and two tapes are recorded by then. -/
def worn : Device := { medium := .ofSectorCount 8, failsWrite := fun attempt _ => 14 ≤ attempt }

theorem exists_worn : ∃ d, format {} worn = .ok d ∧ ∀ history,
    (d.after history).Outlined ((clearedOutline worn).follow ((empty {}).changes history)) := by
  refine outlined_after {} worn rfl rfl fun attempt hlt sector => ?_
  have hcount : worn.sectorCount = 8 := by decide +kernel
  exact decide_eq_false (by omega)

/-- Both tapes are created, and of the failure that follows nothing is said. -/
theorem quiet_impatient {d : Directory} (hformat : format {} worn = .ok d)
    (hafter : ∀ history,
      (d.after history).Outlined ((clearedOutline worn).follow ((empty {}).changes history))) :
    d.Quiet (twoTapes ++ [(impatient, .releaseAll)]) := by
  have halike := alike_format hformat
  have hfirst : ((d.after []).handle twoTapes[0].1 twoTapes[0].2).1 = .ok (.file ⟨1⟩) :=
    (hafter []).reply halike twoTapes[0].2 nofun rfl rfl (by decide +kernel)
  have hsecond : ((d.after (twoTapes.take 1)).handle twoTapes[1].1 twoTapes[1].2).1 =
      .ok (.file ⟨2⟩) :=
    (hafter (twoTapes.take 1)).reply (halike.after _) twoTapes[1].2 nofun rfl rfl
      (by decide +kernel)
  have hplain : (((empty {}).after twoTapes).handle impatient .releaseAll).1 =
      .error (.deadlinePassed .release impatient.client) := by
    rw [releaseAll_twoTapes]
    rfl
  have hlast := (hplain ▸ ((halike.after twoTapes).handle impatient .releaseAll).2).eq_error
  refine ⟨fun f hf => ?_, fun f hf => ?_, fun f hf => ?_, trivial⟩
  · cases hfirst.symm.trans hf
  · cases hsecond.symm.trans hf
  · cases hlast.symm.trans hf
    exact nofun

/-- **It is not enough that no reply is an error of the medium**: the release of the first tape makes it
live and fails to write, but what the run is told is that its deadline has passed.  The live cycle is not
recovered. -/
theorem not_resumed_impatient :
    ∃ d, format {} worn = .ok d ∧ d.Quiet (twoTapes ++ [(impatient, .releaseAll)]) ∧
      (∀ request ∈ twoTapes ++ [(impatient, .releaseAll)], request.1.now < 2 ^ 36) ∧
      ∃ store e, (d.after (twoTapes ++ [(impatient, .releaseAll)])).store = some store ∧
        (recover {} store.device.copy).1 = .ok e ∧
        ¬(d.after (twoTapes ++ [(impatient, .releaseAll)])).Resumed e := by
  obtain ⟨d, hformat, hafter⟩ := exists_worn
  refine ⟨d, hformat, quiet_impatient hformat hafter, by decide, ?_⟩
  have houtlined := hafter (twoTapes ++ [(impatient, .releaseAll)])
  rw [changes_releaseAll] at houtlined
  obtain ⟨store, e, hstore, he, hkeys⟩ := houtlined.exists_recovered {}
    (legible_after hformat _)
    [.lead ⟨"Q", "A"⟩, .main ⟨⟨"Q", "A"⟩, 1⟩, .backup ⟨⟨"Q", "A"⟩, 1⟩,
      .lead ⟨"Q", "B"⟩, .main ⟨⟨"Q", "B"⟩, 1⟩, .backup ⟨⟨"Q", "B"⟩, 1⟩]
    (by decide +kernel) (by decide) (by simp) (by simp) (by decide +kernel) (by decide +kernel)
  refine ⟨store, e, hstore, he, fun hresumed => ?_⟩
  -- the running directory has one live cycle, and none is recovered
  have hlive : ((d.after (twoTapes ++ [(impatient, .releaseAll)])).catalog.sets.filter fun set =>
      set.cycles.any fun c => c.item.state = .live).length = 1 := by
    rw [((alike_format hformat).after _).catalog, after_append, after_cons, after_nil,
      releaseAll_twoTapes]
    decide +kernel
  have hnone : (((clearedOutline worn).follow ((empty {}).changes twoTapes ++
      traceEach changed impatient ((empty {}).after twoTapes) 1 [⟨1⟩, ⟨2⟩])).device.contents.filter
        Sector.live).map Record.keyOf = [] := by
    decide +kernel
  have hlength := congrArg List.length hresumed.sets
  rw [List.length_map, List.length_map, hlive] at hlength
  obtain ⟨set, hset⟩ := List.exists_mem_of_length_pos (hlength ▸ Nat.one_pos)
  obtain ⟨c, hc⟩ := List.exists_mem_of_ne_nil _
    ((keeps_recover (Prod.ext he rfl)).1.nonempty set hset)
  have hkey := (hkeys c.item.key).1 ⟨set, hset, c, hc, rfl⟩
  rw [hnone] at hkey
  cases hkey

end Directory

end FileDirectory
