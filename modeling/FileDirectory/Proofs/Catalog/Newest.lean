/-
**The cycle after the highest one.**

A caller who asks for the cycle after the highest one gets the next number on the circle.  That number
is the oldest there can be, and lies beyond the window as long as the range of the file set is short
of the circle.  The window then moves up by one, and the cycle is the newest of its set until a newer
one is created.  In a set whose range is all of the circle no number lies beyond the window: the next
number is taken for a hole, and the cycle is the oldest of its set from the start.

Main definitions:

* `FileDirectory.CycleSpec.IsNext` — a caller asks for the cycle after the highest one;
* `FileDirectory.FileSet.Foremost` — a cycle is newer than all others of its set;
* `FileDirectory.Catalog.MovesUp` — a file set whose window moves up for the next number;
* `FileDirectory.Catalog.Succeeds` — what the creation of the next cycle makes of its set.

Main results:

* `FileDirectory.FileSet.foremost_iff` — the foremost cycle is listed first;
* `FileDirectory.FileSet.resolve?_of_foremost` — if it is live, it is what the latest cycle means;
* `FileDirectory.Catalog.succeeds_of_create` — what the creation of the next cycle makes of its set;
* `FileDirectory.Catalog.Aged.foremost` — the foremost cycle stays it until a newer one is created.
-/

import FileDirectory.Proofs.Catalog.Window

set_option autoImplicit false

namespace FileDirectory

/-! ### The next number -/

/-- A caller asks for the cycle after the highest one. -/
def CycleSpec.IsNext (spec : CycleSpec) : Prop := spec = .unspecified ∨ spec = .relative 1

namespace Cycle

variable {cycle : Nat}

/-- The next number is the oldest there can be. -/
theorem age_of_next (h : 1 ≤ cycle ∧ cycle ≤ highestNumber) :
    age cycle (next cycle) + 1 = highestNumber := by
  unfold age next highestNumber at *
  split <;> omega

theorem next_ne (h : 1 ≤ cycle ∧ cycle ≤ highestNumber) : next cycle ≠ cycle := by
  unfold next highestNumber at *
  split <;> omega

end Cycle

namespace FileSet

variable {set : FileSet}

theorem nextNumber_of_isNext {spec : CycleSpec} (hspec : spec.IsNext) {number : Nat}
    (h : set.nextNumber spec = .ok number) : number = Cycle.next set.lead.highest := by
  rcases hspec with rfl | rfl
  · exact (plusOne_eq_ok h).2
  · exact (plusOne_eq_ok h).2

theorem firstNumber_of_isNext {spec : CycleSpec} (hspec : spec.IsNext) {number : Nat}
    (h : set.firstNumber spec = .ok number) : number = 1 := by
  rcases hspec with rfl | rfl
  · cases h
    rfl
  · cases h
    rfl

/-- In a set that has cycles, the next number is beyond the window if the range is short of the
circle. -/
theorem Chosen.newest_iff (hcircle : set.OnCircle) (hsome : set.cycles ≠ []) {spec : CycleSpec}
    (hspec : spec.IsNext) {number : Nat} {newest : Bool} (h : Chosen set spec number newest) :
    number = Cycle.next set.lead.highest ∧
      (newest = true ↔ set.lead.maxRange < Cycle.highestNumber) := by
  have holdest := Cycle.age_of_next hcircle.highest
  cases h with
  | first hnone _ => exact absurd hnone hsome
  | hole _ hnumber _ hage =>
      obtain rfl := nextNumber_of_isNext hspec hnumber
      exact ⟨rfl, iff_of_false Bool.false_ne_true (by omega)⟩
  | above _ hnumber _ hage _ =>
      obtain rfl := nextNumber_of_isNext hspec hnumber
      exact ⟨rfl, iff_of_true rfl (by omega)⟩

/-! ### The newest cycle of a set -/

/-- A cycle is newer than all others of its set. -/
def Foremost (set : FileSet) (file : FileId) : Prop :=
  ∀ e ∈ set.cycles, e.file ≠ file → set.Newer file e.file

/-- The foremost cycle is listed first. -/
theorem foremost_iff (hfiles : set.files.Nodup) (hcircle : set.OnCircle) {file : FileId}
    (hfile : file ∈ set.files) : set.Foremost file ↔ set.newestFirst.head? = some file := by
  have hsorted := hcircle.pairwise_newestFirst
  have hmem : ∀ f, f ∈ set.newestFirst ↔ f ∈ set.files := fun _ => mem_newestFirst
  cases hlist : set.newestFirst with
  | nil =>
      rw [hlist] at hmem
      exact absurd ((hmem file).2 hfile) List.not_mem_nil
  | cons first rest =>
      rw [hlist] at hsorted hmem
      have hnewer := (List.pairwise_cons.1 hsorted).1
      rw [List.head?_cons, Option.some.injEq]
      constructor
      · intro h
        refine Decidable.byContradiction fun hne => ?_
        -- each of the two would be newer than the other
        obtain ⟨e, he, rfl⟩ := List.mem_map.1 ((hmem first).1 List.mem_cons_self)
        exact (h e he hne).asymm hfiles
          (hnewer file (List.mem_of_ne_of_mem (Ne.symm hne) ((hmem file).2 hfile)))
      · rintro rfl e he hne
        exact hnewer _ (List.mem_of_ne_of_mem hne ((hmem _).2 (List.mem_map_of_mem he)))

/-- **A foremost cycle that is live is what the latest cycle of its set means.** -/
theorem resolve?_of_foremost (hfiles : set.files.Nodup) {d : FileCycle} (hd : d ∈ set.cycles)
    (hlive : d.item.state = .live) (h : set.Foremost d.file) (client : Client) :
    set.resolve? (.relative 0) client = some d ∧ set.resolve? .unspecified client = some d := by
  have hhead : set.liveByAge.head? = some d := by
    refine head?_mergeSort (List.mem_filter.2 ⟨hd, decide_eq_true hlive⟩) ?_
    intro e he hne
    have hin := (List.mem_filter.1 he).1
    obtain ⟨d', hd', e', he', hdfile, hefile, hlt⟩ := h e hin fun hfile =>
      hne (List.inj_on_of_nodup_map hfiles hin hd hfile)
    rwa [List.inj_on_of_nodup_map hfiles hd' hd hdfile,
      List.inj_on_of_nodup_map hfiles he' hin hefile] at hlt
  refine ⟨?_, hhead⟩
  show set.liveByAge[0]? = some d
  rw [← List.head?_eq_getElem?]
  exact hhead

end FileSet

namespace Catalog

/-! ### Creating the next cycle -/

/-- The number of the highest cycle of the file set of a name, zero if there is none. -/
def highestOf (c : Catalog) (name : SetName) : Nat :=
  match c.find? name with
  | some set => set.lead.highest
  | none => 0

/-- The window of a file set moves up for the next number: the set was not there before, or its range
is short of the circle. -/
def MovesUp (c : Catalog) (set : FileSet) : Prop :=
  c.find? set.name = none ∨ set.lead.maxRange < Cycle.highestNumber

/-- What the creation of the next cycle makes of its set. -/
structure Succeeds (c : Catalog) (set : FileSet) (cycle : FileCycle) : Prop where
  number_eq : cycle.item.key.cycle = Cycle.next (c.highestOf set.name)
  highest_iff : set.lead.highest = cycle.item.key.cycle ↔ c.MovesUp set
  first_iff : set.newestFirst.head? = some cycle.file ↔ c.MovesUp set
  /-- Otherwise the highest cycle stays what it is, and the cycle is the oldest of the set. -/
  oldest : ¬c.MovesUp set → set.lead.highest = c.highestOf set.name ∧
    ∀ e ∈ set.cycles, e.file ≠ cycle.file → set.Newer e.file cycle.file

section Added

variable {old : FileSet} {number : Nat} {newest : Bool} {cycle : FileCycle}

/-- A cycle that was added is newer than all others if it became the highest one, and older if it has
the greatest age. -/
theorem newer_added (hcircle : (old.added number newest cycle).OnCircle)
    (hcycle : cycle.item.key.cycle = number)
    (hage : newest = false → Cycle.age old.lead.highest number + 1 = Cycle.highestNumber)
    {e : FileCycle}
    (he : e ∈ (old.added number newest cycle).cycles) (hne : e.file ≠ cycle.file) :
    if newest then (old.added number newest cycle).Newer cycle.file e.file
    else (old.added number newest cycle).Newer e.file cycle.file := by
  have hin : cycle ∈ (old.added number newest cycle).cycles :=
    FileSet.mem_cycles_added.2 (Or.inr rfl)
  have hdiff : (old.added number newest cycle).ageOf cycle ≠
      (old.added number newest cycle).ageOf e := by
    intro heq
    rw [hcircle.eq_of_ageOf_eq hin he heq] at hne
    exact hne rfl
  have hlt : (old.added number newest cycle).ageOf e < Cycle.highestNumber := Cycle.age_lt _ _
  have hself := FileSet.ageOf_added old number newest cycle cycle
  rw [hcycle] at hself
  cases newest with
  | true =>
      rw [if_pos rfl, Cycle.age_self] at hself
      exact ⟨cycle, hin, e, he, rfl, rfl, by omega⟩
  | false =>
      rw [if_neg Bool.false_ne_true] at hself
      have holdest := hage rfl
      exact ⟨e, he, cycle, hin, rfl, rfl, by omega⟩

/-- A cycle of the next number that was added succeeds the highest one. -/
theorem succeeds_added {c : Catalog} (hfiles : (old.added number newest cycle).files.Nodup)
    (hcircle : (old.added number newest cycle).OnCircle) (hcycle : cycle.item.key.cycle = number)
    (hnumber : number = Cycle.next (c.highestOf old.name))
    (hnewest : newest = true ↔ c.MovesUp (old.added number newest cycle))
    (hold : newest = false → old.OnCircle ∧ c.highestOf old.name = old.lead.highest ∧
      ∃ e ∈ old.cycles, e.file ≠ cycle.file) :
    Succeeds c (old.added number newest cycle) cycle := by
  have hin : cycle.file ∈ (old.added number newest cycle).files :=
    List.mem_map_of_mem (FileSet.mem_cycles_added.2 (Or.inr rfl))
  cases newest with
  | true =>
      have hup := hnewest.1 rfl
      have hfore : (old.added number true cycle).Foremost cycle.file := fun e he hne =>
        newer_added hcircle hcycle (fun hfalse => by cases hfalse) he hne
      refine ⟨?_, ?_, ?_, fun hnot => absurd hup hnot⟩
      · rw [hcycle, hnumber, FileSet.name_added]
      · rw [FileSet.highest_added, hcycle]
        exact iff_of_true rfl hup
      · exact iff_of_true ((FileSet.foremost_iff hfiles hcircle hin).1 hfore) hup
  | false =>
      have hnot : ¬c.MovesUp (old.added number false cycle) := fun hup =>
        Bool.false_ne_true (hnewest.2 hup)
      obtain ⟨hcircle', hhighest, e, he, hne⟩ := hold rfl
      rw [hhighest] at hnumber
      have hage : Cycle.age old.lead.highest number + 1 = Cycle.highestNumber := by
        rw [hnumber, Cycle.age_of_next hcircle'.highest]
      have hnewer : ∀ d ∈ (old.added number false cycle).cycles, d.file ≠ cycle.file →
          (old.added number false cycle).Newer d.file cycle.file := fun d hd hne =>
        newer_added hcircle hcycle (fun _ => hage) hd hne
      refine ⟨?_, ?_, ?_, fun _ => ⟨?_, hnewer⟩⟩
      · rw [hcycle, FileSet.name_added, hhighest, hnumber]
      · rw [FileSet.highest_added, hcycle, hnumber]
        exact iff_of_false (Cycle.next_ne hcircle'.highest).symm hnot
      · refine iff_of_false (fun hhead => ?_) hnot
        -- some cycle was there before, and it is newer
        have hfore := (FileSet.foremost_iff hfiles hcircle hin).2 hhead
        have he' : e ∈ (old.added number false cycle).cycles :=
          FileSet.mem_cycles_added.2 (Or.inl he)
        exact (hfore e he' hne).asymm hfiles (hnewer e he' hne)
      · rw [FileSet.highest_added, FileSet.name_added, hhighest]
        rfl

end Added

/-- The next number, and when it becomes the highest one. -/
theorem next_of_chosen {c : Catalog} (hc : c.Indexed) (h : ∀ set ∈ c.sets, set.OnCircle)
    {r : Creation} {client : Client} {old : FileSet} (hset : c.setFor r client = .ok old)
    (hspec : r.cycle.IsNext) {number : Nat} {newest : Bool}
    (hchosen : FileSet.Chosen old r.cycle number newest) :
    number = Cycle.next (c.highestOf old.name) ∧
      (newest = true ↔ c.find? old.name = none ∨ old.lead.maxRange < Cycle.highestNumber) ∧
      (newest = false → old ∈ c.sets ∧ c.highestOf old.name = old.lead.highest) := by
  rcases setFor_cases hset with hmem | ⟨rfl, hnone⟩
  · have hfind : c.find? old.name = some old := (find?_eq_some_iff hc.ordered).2 ⟨hmem, rfl⟩
    have hhighest : c.highestOf old.name = old.lead.highest := by rw [highestOf, hfind]
    obtain ⟨hnumber, hnewest⟩ := hchosen.newest_iff (h old hmem) (hc.nonempty old hmem) hspec
    refine ⟨by rw [hhighest, hnumber], hnewest.trans ?_, fun _ => ⟨hmem, hhighest⟩⟩
    rw [hfind]
    exact (or_iff_right (Option.some_ne_none _)).symm
  · have hname : (r.newSet client).name = r.name := rfl
    cases hchosen with
    | hole hsome _ _ _ => exact absurd rfl hsome
    | above hsome _ _ _ _ => exact absurd rfl hsome
    | first _ hnumber =>
        obtain rfl := FileSet.firstNumber_of_isNext hspec hnumber
        refine ⟨?_, iff_of_true rfl (Or.inl (hname ▸ hnone)), fun hfalse => by cases hfalse⟩
        rw [highestOf, hname, hnone]
        rfl

/-- A creation that succeeds adds the cycle of the next identifier to its set. -/
theorem added_of_create {c : Catalog} {call : Call} {r : Creation} (hr : WellFormed c.config r)
    {change : Change FileId} (h : c.create call r = .ok change) :
    ∃ old number newest cycle space, c.setFor r call.client = .ok old ∧
      old.chooseNew r.cycle = .ok (number, newest) ∧ cycle.file = ⟨c.lastFile + 1⟩ ∧
      cycle.item.key.cycle = number ∧ change.answer = ⟨c.lastFile + 1⟩ ∧
      Step call c (old.added number newest cycle) space (c.lastFile + 1) ∧
      change.catalog = { c with space := space, lastFile := c.lastFile + 1 }.put
        (old.added number newest cycle) := by
  obtain ⟨old, number, newest, regions, space, hset, hchoose, htracks, hspace, rfl⟩ :=
    create_eq_ok h
  exact ⟨old, number, newest, _, space, hset, hchoose, file_fileCycle ..,
    congrArg CycleKey.cycle (key_fileCycle ..), rfl, .enter hr hset hchoose htracks hspace, rfl⟩

/-- **What the creation of the next cycle makes of its set.** -/
theorem succeeds_of_create {c : Catalog} (hc : c.Indexed) (h : ∀ set ∈ c.sets, set.OnCircle)
    {call : Call} {r : Creation} (hr : WellFormed c.config r) (hspec : r.cycle.IsNext)
    {change : Change FileId} (hcreate : c.create call r = .ok change) :
    ∃ set ∈ change.catalog.sets, ∃ cycle ∈ set.cycles, cycle.file = change.answer ∧
      change.answer.number = change.catalog.lastFile ∧ Succeeds c set cycle := by
  obtain ⟨old, number, newest, cycle, space, hset, hchoose, hfile, hcycle, hanswer, hstep, hcatalog⟩ :=
    added_of_create hr hcreate
  obtain ⟨hnumber, hnewest, hold⟩ :=
    next_of_chosen hc h hset hspec (FileSet.chosen_of_chooseNew hchoose)
  have hin : cycle ∈ (old.added number newest cycle).cycles :=
    FileSet.mem_cycles_added.2 (Or.inr rfl)
  rw [hcatalog, hanswer, lastFile_put]
  refine ⟨_, ?_, cycle, hin, hfile, rfl, ?_⟩
  · exact (mem_sets_put (c := { c with space := space, lastFile := c.lastFile + 1 }) hc.ordered).2
      (Or.inl ⟨rfl, List.ne_nil_of_mem hin⟩)
  · refine succeeds_added (hstep.fresh hc).nodup (hstep.onCircle hc h) hcycle hnumber ?_ ?_
    · rwa [MovesUp, FileSet.name_added, FileSet.maxRange_added]
    · intro hfalse
      obtain ⟨hmem, hhighest⟩ := hold hfalse
      obtain ⟨e, he⟩ := List.exists_mem_of_ne_nil _ (hc.nonempty old hmem)
      refine ⟨h old hmem, hhighest, e, he, ?_⟩
      -- identifiers of before are lower
      intro heq
      have hle := hc.le_last old hmem e.file (List.mem_map_of_mem he)
      rw [heq, hfile] at hle
      exact absurd hle (Nat.not_succ_le_self _)

/-! ### The newest cycle later on -/

/-- **The foremost cycle stays it until a newer one is created**: in a later catalog it is newer than
all cycles of before, whatever became of these. -/
theorem Aged.foremost {c c' : Catalog} (h : Aged c c') (hc : c.Indexed) {set : FileSet}
    (hset : set ∈ c.sets) {cycle : FileCycle} (hcycle : cycle ∈ set.cycles)
    (hlast : cycle.file.number = c.lastFile) (hfore : set.Foremost cycle.file) {later : FileSet}
    (hlater : later ∈ c'.sets) (hcircle : later.OnCircle) {e : FileCycle} (he : e ∈ later.cycles)
    (hfile : e.file = cycle.file)
    (hnone : ∀ o ∈ later.cycles, cycle.file.number < o.file.number →
      ¬later.Newer o.file cycle.file) : later.Foremost cycle.file := by
  obtain ⟨-, shift, hshift⟩ := h
  obtain ⟨s, hs, hname, d, hd, hdfile, hage⟩ :=
    hshift later hlater e he (Nat.le_of_eq (by rw [hfile, hlast]))
  have hsame : cycle.file ∈ s.files := by
    rw [← hfile, ← hdfile]
    exact List.mem_map_of_mem hd
  obtain rfl := hc.apart s hs set hset cycle.file hsame (List.mem_map_of_mem hcycle)
  obtain rfl := List.inj_on_of_nodup_map (hc.nodup s hs) hd hcycle (hdfile.trans hfile)
  intro o ho hne
  refine ⟨e, he, o, ho, hfile, rfl, ?_⟩
  by_cases hknown : o.file.number ≤ c.lastFile
  · -- a cycle of before was older and became older by the same amount
    obtain ⟨s', hs', hname', d', hd', hdfile', hage'⟩ := hshift later hlater o ho hknown
    obtain rfl := hc.ordered.eq_of_name_eq hs' hs (hname'.trans hname.symm)
    obtain ⟨a, ha, b, hb, hafile, hbfile, hlt⟩ := hfore d' hd' (by rwa [hdfile'])
    obtain rfl := List.inj_on_of_nodup_map (hc.nodup s' hs') ha hd hafile
    obtain rfl := List.inj_on_of_nodup_map (hc.nodup s' hs') hb hd' hbfile
    omega
  · have hnot := hnone o ho (by omega)
    have hdiff : later.ageOf o ≠ later.ageOf e := by
      intro heq
      rw [hcircle.eq_of_ageOf_eq ho he heq] at hne
      exact hne hfile
    have hge : ¬later.ageOf o < later.ageOf e := fun hlt => hnot ⟨o, ho, e, he, rfl, hfile, hlt⟩
    omega

end Catalog

end FileDirectory
