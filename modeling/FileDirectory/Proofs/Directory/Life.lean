/-
**The life of a cycle in a directory.**

Whoever makes requests, in whatever order, a cycle is first cataloged by its creator, or live at once,
then live, then dropped, and goes.  What becomes of it when a request is made, who may bring that
about, and what is left of it once it is gone, is stated for one request in any state; along a whole
history a cycle never goes back.

Main definitions:

* `FileDirectory.Directory.Removed` — what is left of a cycle that is gone;
* `FileDirectory.Directory.Lives` — what becomes of a cycle when a request is made;
* `FileDirectory.CycleState.rank` — how far a cycle has got in its life.

Main results:

* `FileDirectory.Directory.heldOf_releaseEach` — who releases cycles in turn has none of them left;
* `FileDirectory.Catalog.free_of_removed` — the tracks of a cycle that went are free;
* `FileDirectory.Directory.lives_of_reached` — cycles live so in every state;
* `FileDirectory.Directory.rank_le_after` — no cycle ever goes back.
-/

import FileDirectory.Proofs.Directory.Newest
import FileDirectory.Proofs.Directory.Owned
import FileDirectory.Proofs.Directory.Removed

set_option autoImplicit false

namespace FileDirectory

/-- How far a cycle has got in its life. -/
def CycleState.rank : CycleState → Nat
  | .cataloging => 0
  | .live => 1
  | .dropping => 2
  | .dropped => 3

/-- A share of assignments is given up by a release of one cycle, or of all. -/
theorem Request.share_eq_some {r : Request} {file : FileId} {share : Catalog.Share}
    (h : r.share file = some share) :
    r = .release file ∧ share = .one ∨ r = .releaseAll ∧ share = .all := by
  cases r with
  | release other =>
      rw [Request.share] at h
      split at h
      · rename_i heq
        cases h
        exact Or.inl ⟨congrArg _ heq, rfl⟩
      · cases h
  | releaseAll =>
      cases h
      exact Or.inr ⟨rfl, rfl⟩
  | _ => cases h

namespace Catalog

variable {c c' : Catalog} {call : Call} {r : Request} {file : FileId}

/-- A passage leads no cycle back. -/
theorem Passes.rank_le {b a : FileCycle} (h : Passes call r file (some b) (some a))
    (hpresent : b.item.state ≠ .dropped) : b.item.state.rank ≤ a.item.state.rank := by
  cases hstate : b.item.state with
  | cataloging => exact Nat.zero_le _
  | live =>
      rcases (h.fromLive b rfl hstate).1 a rfl with hlive | ⟨hdropping, -⟩
      · rw [hlive]
      · rw [hdropping]
        decide
  | dropping => rw [((h.fromDropping b rfl hstate).1 a rfl).1]
  | dropped => exact absurd hstate hpresent

/-! ### The tracks of a cycle that went -/

/-- A cycle goes when it is aborted, deleted or released; nothing is created or allocated then. -/
theorem Turn.of_gone {before : Option FileCycle} {notes : List Roster.Note}
    (h : Turn call r file before none notes) (hbefore : before ≠ none) :
    r.creates = none ∧ ∀ other first count, r ≠ .allocateTracks other first count := by
  have hdelete : r.isDelete = true →
      r.creates = none ∧ ∀ other first count, r ≠ .allocateTracks other first count := by
    cases r <;> simp [Request.isDelete, Request.creates]
  generalize hafter : (none : Option FileCycle) = after at h
  cases h with
  | idle => exact absurd hafter.symm hbefore
  | create => cases hafter
  | assign => cases hafter
  | catalog => cases hafter
  | abort hr =>
      subst hr
      exact ⟨rfl, fun _ _ _ heq => by cases heq⟩
  | doom => cases hafter
  | delete hr => exact hdelete hr
  | release hr =>
      rcases Request.share_eq_some hr with ⟨rfl, -⟩ | ⟨rfl, -⟩
      · exact ⟨rfl, fun _ _ _ heq => by cases heq⟩
      · exact ⟨rfl, fun _ _ _ heq => by cases heq⟩
  | grow => cases hafter
  | write => cases hafter
  | guard => cases hafter

/-- No two cycles have a track in common. -/
theorem Owned.apart (h : c.Owned) {d e : FileCycle} (hd : d ∈ c.cycles) (he : e ∈ c.cycles)
    (hne : d ≠ e) {r s : Region} (hr : r ∈ d.item.table.packRegions)
    (hs : s ∈ e.item.table.packRegions) {track : Nat} (htrack : track ∈ r) : track ∉ s := by
  have hsymm : Std.Symm fun d e : FileCycle => ∀ r ∈ d.item.table.packRegions,
      ∀ s ∈ e.item.table.packRegions, ∀ track ∈ r, track ∉ s :=
    ⟨fun _ _ hde r hr s hs track htr hts => hde s hs r hr track hts htr⟩
  have hpairs := (List.pairwise_flatMap.1 h.disjoint).2
  exact hpairs.forall hd he hne r hr s hs track htrack

theorem mem_cycles_iff_cycle? (hc : c.Indexed) {d : FileCycle} :
    d ∈ c.cycles ↔ c.cycle? d.file = some d := by
  rw [mem_cycles, cycle?_eq_some_iff hc]
  simp

/-- **The tracks of a cycle that went are free**, if all other cycles are on the tracks they had. -/
theorem free_of_removed (hc : c.Indexed) (hc' : c'.Indexed) (hbefore : c.Owned) (hafter : c'.Owned)
    (hcapacity : c'.space.capacity = c.space.capacity) {b : FileCycle} (hb : c.cycle? file = some b)
    (hgone : c'.cycle? file = none)
    (hkeeps : ∀ other, ∀ a ∈ c'.cycle? other, ∃ e ∈ c.cycle? other, a.item.table = e.item.table) :
    ∀ region ∈ b.item.table.packRegions, ∀ track ∈ region, ∃ f ∈ c'.space.regions, track ∈ f := by
  obtain rfl := file_of_cycle? hc hb
  have hbin : b ∈ c.cycles := (mem_cycles_iff_cycle? hc).2 hb
  intro region hregion track htrack
  refine (hafter.free_iff track).2 ⟨?_, ?_⟩
  · have hinside := hbefore.inside region (List.mem_flatMap.2 ⟨b, hbin, hregion⟩)
    have hlt : track < region.limit := (Region.mem_iff.1 htrack).2
    omega
  · intro other hother
    obtain ⟨a, ha, hother⟩ := List.mem_flatMap.1 hother
    have hfound := (mem_cycles_iff_cycle? hc').1 ha
    obtain ⟨e, he, htable⟩ := hkeeps a.file a hfound
    have hein : e ∈ c.cycles := by
      have hfile := file_of_cycle? hc he
      exact (mem_cycles_iff_cycle? hc).2 (hfile ▸ he)
    have hne : b ≠ e := by
      rintro rfl
      rw [← file_of_cycle? hc he, hgone] at hfound
      cases hfound
    rw [htable] at hother
    exact hbefore.apart hbin hein hne hregion hother htrack

end Catalog

namespace Directory

open Catalog

variable {config : Configuration} {d : Directory} {call : Call} {r : Request} {file : FileId}

/-! ### Releasing -/

/-- A release of all that the caller has of a cycle leaves it nothing, unless the deadline has
passed. -/
theorem Bookkept.heldOf_release (h : d.Bookkept) (hd : d.catalog.Indexed)
    (hreply : ∀ f, (d.release call file .all).1 = .error f → f.kind ≠ .aborted) :
    heldOf ((d.release call file .all).2.catalog.cycle? file) call.client = 0 := by
  unfold Directory.release at hreply ⊢
  cases houtcome : d.catalog.release call file .all with
  | error f =>
      rw [houtcome] at hreply
      exact ((release_eq_error houtcome).resolve_left (hreply f rfl)).2
  | ok change =>
      obtain ⟨cycle, hcycle, hafter⟩ := cycle?_release hd houtcome
      rw [catalog_perform_ok, hafter]
      exact heldOf_settled_all (h.of_cycle? hd hcycle).toTallied

/-- **Who releases cycles in turn has none of them left**, unless the deadline has passed. -/
theorem Bookkept.heldOf_releaseEach (h : d.Bookkept) (hd : d.catalog.Indexed) {looks released : Nat}
    {trouble : Option Failure} {files : List FileId}
    (hreply : ∀ f, (releaseEach call d looks released trouble files).1 = .error f →
      f.kind ≠ .aborted) :
    ∀ file ∈ files, heldOf ((releaseEach call d looks released trouble files).2.catalog.cycle? file)
      call.client = 0 := by
  induction files generalizing d looks released trouble with
  | nil =>
      intro file hfile
      cases hfile
  | cons first files ih =>
      have hperformed : Performed call .releaseAll d (d.release (call.after looks) first .all).2 :=
        performed_release rfl looks
      have hd' := hperformed.indexed hd
      have hbooks' := hperformed.bookkept hd h
      rcases releaseEach_cons call d looks released trouble first files with
        ⟨f, -, haborted, heq⟩ | ⟨hnot, released', trouble', heq⟩
      · exact absurd haborted (hreply f (by rw [heq]))
      · rw [heq] at hreply ⊢
        refine List.forall_mem_cons.2 ⟨?_, ih hbooks' hd' hreply⟩
        -- what the caller has given up it does not get back
        refine (releaseEach_induction
          (P := fun e => e.catalog.Indexed ∧ heldOf (e.catalog.cycle? first) call.client = 0)
          ?_ ⟨hd', h.heldOf_release hd hnot⟩ _ _ _ files).2
        rintro e looks' other ⟨he, hzero⟩
        have hnext : Performed call .releaseAll e (e.release (call.after looks') other .all).2 :=
          performed_release rfl looks'
        obtain ⟨notes, hturn⟩ := hnext.turn he first
        refine ⟨hnext.indexed he, ?_⟩
        rw [hturn.eq_of_not_held hzero]
        exact hzero

/-- Releasing everything goes through what the roster lists. -/
theorem Bookkept.perm_heldBy (h : d.Bookkept) (hd : d.catalog.Indexed) (htabled : d.Tabled)
    (client : Client) : (d.heldBy client).Perm (d.roster.filesOf client) := by
  have hfound : ∀ file ∈ d.roster.filesOf client,
      (d.locate? file).map (fun found => found.2.file) = some file := by
    intro file hfile
    have hheld := (h.mem_filesOf_iff hd).1 hfile
    rw [htabled.locate?_eq hd]
    cases hlocate : d.catalog.locate? file with
    | none =>
        rw [cycle?, hlocate] at hheld
        exact absurd hheld (Nat.lt_irrefl 0)
    | some found => exact congrArg some (locate?_eq_some hlocate).2.2
  -- every cycle that is listed is found, so none is left out
  have hlisted : ((d.roster.filesOf client).filterMap d.locate?).map (fun found => found.2.file) =
      d.roster.filesOf client := by
    rw [List.map_filterMap]
    exact (List.filterMap_congr hfound).trans List.filterMap_some
  refine ((List.mergeSort_perm _ _).map _).trans ?_
  rw [hlisted]

/-- The cycles that a client has assigned are those that it releases when it releases everything. -/
theorem Bookkept.mem_heldBy_iff (h : d.Bookkept) (hd : d.catalog.Indexed) (htabled : d.Tabled)
    {client : Client} :
    file ∈ d.heldBy client ↔ heldOf (d.catalog.cycle? file) client ≠ 0 := by
  rw [(h.perm_heldBy hd htabled client).mem_iff, h.mem_filesOf_iff hd, Nat.pos_iff_ne_zero]

theorem Bookkept.heldOf_releaseAll (h : d.Bookkept) (hd : d.catalog.Indexed) (htabled : d.Tabled)
    (hheld : 0 < heldOf (d.catalog.cycle? file) call.client)
    (hreply : ∀ f, (d.releaseAll call).1 = .error f → f.kind ≠ .aborted) :
    heldOf ((d.releaseAll call).2.catalog.cycle? file) call.client = 0 := by
  unfold releaseAll at hreply ⊢
  cases hcheck : call.check .releaseAll 0 with
  | error f =>
      rw [hcheck] at hreply
      unfold Call.check at hcheck
      split at hcheck
      · cases hcheck
        exact absurd rfl (hreply _ rfl)
      · cases hcheck
  | ok u =>
      rw [hcheck] at hreply
      exact h.heldOf_releaseEach hd hreply file ((h.mem_heldBy_iff hd htabled).2 hheld.ne')

/-- **A cycle that is being dropped goes with the release of all the assignments that there are**,
unless the deadline has passed. -/
theorem Bookkept.gone_of_released (h : d.Bookkept) (hd : d.catalog.Indexed) (htabled : d.Tabled)
    {b : FileCycle} (hb : d.catalog.cycle? file = some b) (hstate : b.item.state = .dropping)
    {share : Share} (hr : r.share file = some share) (hheld : 0 < b.held call.client)
    (hall : b.item.assigned = share.of (b.held call.client))
    (hreply : ∀ f, (d.handle call r).1 = .error f → f.kind ≠ .aborted) :
    (d.handle call r).2.catalog.cycle? file = none := by
  have hbooks := h.of_cycle? hd hb
  have hgone := (settled_eq_none_iff hbooks hstate hheld.ne').2 hall
  have hpos : 0 < heldOf (d.catalog.cycle? file) call.client := by rwa [hb]
  rcases Request.share_eq_some hr with ⟨rfl, rfl⟩ | ⟨rfl, rfl⟩
  · change (d.release call file .one).2.catalog.cycle? file = none
    have hanswer : ∀ f, (d.release call file .one).1 = .error f → f.kind ≠ .aborted :=
      fun f hf => hreply f (replied_eq_error.2 hf)
    unfold Directory.release at hanswer ⊢
    cases houtcome : d.catalog.release call file .one with
    | error f =>
        rw [houtcome] at hanswer
        rcases release_eq_error houtcome with haborted | ⟨-, hzero⟩
        · exact absurd haborted (hanswer f rfl)
        · omega
    | ok change =>
        obtain ⟨cycle, hcycle, hafter⟩ := cycle?_release hd houtcome
        rw [hb] at hcycle
        obtain rfl := Option.some.inj hcycle
        rw [catalog_perform_ok, hafter, hgone]
  · have hzero := h.heldOf_releaseAll hd htabled hpos fun f hf => hreply f (replied_eq_error.2 hf)
    obtain ⟨notes, hturn⟩ := h.turn_handle hd call .releaseAll file
    rcases hturn.releaseAll_cases with hsame | ⟨cycle, hcycle, -, hafter, -⟩
    · -- then the caller would still have what it had
      rw [← hsame] at hpos
      exact absurd hzero hpos.ne'
    · rw [hb] at hcycle
      obtain rfl := Option.some.inj hcycle
      rw [hafter, hgone]

/-! ### Lives -/

/-- What is left of a cycle that is gone. -/
structure Removed (d : Directory) (cycle : FileCycle) : Prop where
  /-- Its identifier finds nothing for ever, which every request is told that uses it. -/
  notFound : ∀ later, (d.after later).catalog.cycle? cycle.file = none ∧
    ∀ call r, r.file? = some cycle.file → call.expired 0 = false →
      ((d.after later).handle call r).1 = .error (.noSuchFile cycle.file)
  /-- Its tracks are free. -/
  free : ∀ region ∈ cycle.item.table.packRegions, ∀ track ∈ region,
    ∃ f ∈ d.catalog.space.regions, track ∈ f
  /-- If no other cycle has its name, then that name finds nothing, which every request is told that
  asks for the file set, until a cycle is created in it again. -/
  unnamed : (∀ other ∈ d.catalog.cycles, other.item.key.set ≠ cycle.item.key.set) →
    ∀ later, ¬d.CreatedAgain cycle.item.key.set later →
      (d.after later).catalog.find? cycle.item.key.set = none ∧
      ∀ call r, r.AsksFor cycle.item.key.set → call.expired 0 = false →
        ((d.after later).handle call r).1 = .error (.noSuchSet cycle.item.key.set)

/-- What becomes of the cycle of an identifier when a request is made. -/
structure Lives (d : Directory) (call : Call) (r : Request) (file : FileId) : Prop where
  /-- It goes on as its state demands. -/
  passes : Passes call r file (d.catalog.cycle? file) ((d.handle call r).2.catalog.cycle? file)
  /-- A cycle that begins has an identifier that no cycle had before. -/
  begins : d.catalog.cycle? file = none → ∀ a ∈ (d.handle call r).2.catalog.cycle? file,
    d.catalog.lastFile < file.number
  /-- Nobody but its creator is let assign, catalog, abort or release a cycle that is being
  cataloged. -/
  refuses : ∀ b ∈ d.catalog.cycle? file, b.item.state = .cataloging →
    b.creator ≠ some call.client →
      (r = .catalog file ∨ r = .abort file ∨ r = .release file →
        ∃ f, (d.handle call r).1 = .error f) ∧
      (r.isAssign = true → (d.handle call r).1 ≠ .ok (.file file))
  /-- While it is being dropped it goes with the release of all the assignments that there are, unless
  the deadline has passed. -/
  goes : ∀ b ∈ d.catalog.cycle? file, b.item.state = .dropping → ∀ share, r.share file = some share →
    0 < b.held call.client → b.item.assigned = share.of (b.held call.client) →
      (∀ f, (d.handle call r).1 = .error f → f.kind ≠ .aborted) →
        (d.handle call r).2.catalog.cycle? file = none
  /-- This is what is left when it goes. -/
  removed : ∀ b ∈ d.catalog.cycle? file, (d.handle call r).2.catalog.cycle? file = none →
    (d.handle call r).2.Removed b

/-- Nobody but its creator is let go on with a cycle that is being cataloged. -/
theorem Bookkept.refuses (h : d.Bookkept) (hd : d.catalog.Indexed) {b : FileCycle}
    (hb : d.catalog.cycle? file = some b) (hstate : b.item.state = .cataloging)
    (hforeign : b.creator ≠ some call.client) :
    (r = .catalog file ∨ r = .abort file ∨ r = .release file → ∃ f, (d.handle call r).1 = .error f) ∧
      (r.isAssign = true → (d.handle call r).1 ≠ .ok (.file file)) := by
  have hsame : ∀ {set : FileSet} {cycle : FileCycle}, set ∈ d.catalog.sets → cycle ∈ set.cycles →
      cycle.file = file → cycle = b := by
    rintro set cycle hset hcycle rfl
    rw [cycle?_of_mem hd hset hcycle] at hb
    exact Option.some.inj hb
  have hrefused : ∀ {outcome : Except Failure (Change Unit)}, (∀ change, outcome ≠ .ok change) →
      ∃ f, (replied (fun _ => .done) (d.perform outcome)).1 = .error f := by
    intro outcome hnot
    cases outcome with
    | error f => exact ⟨f, rfl⟩
    | ok change => exact absurd rfl (hnot change)
  refine ⟨?_, ?_⟩
  · rintro (rfl | rfl | rfl)
    · refine hrefused fun change hchange => ?_
      obtain ⟨set, hset, cycle, hcycle, hfile, -, hcreator, -⟩ := catalog_eq_ok hchange
      exact hforeign (hsame hset hcycle hfile ▸ hcreator)
    · refine hrefused fun change hchange => ?_
      obtain ⟨set, hset, cycle, hcycle, hfile, -, hcreator, -⟩ := abort_eq_ok hchange
      exact hforeign (hsame hset hcycle hfile ▸ hcreator)
    · refine hrefused fun change hchange => ?_
      obtain ⟨set, hset, cycle, hcycle, hfile, hheld, -⟩ := release_eq_ok hchange
      -- only the creator has a cycle that is being cataloged
      obtain rfl := hsame hset hcycle hfile
      exact hforeign ((h.of_cycle? hd hb).eq_creator hstate hheld)
  · intro hr hreply
    cases r with
    | assign qualifier filename spec key =>
        obtain ⟨change, hchange, hanswer, -⟩ := perform_eq_ok (ok_of_replied hreply)
        obtain ⟨set, hset, cycle, hcycle, hvisible, -, -, rfl⟩ := assign_eq_ok hchange
        obtain rfl := hsame hset hcycle hanswer
        exact hforeign (by simpa [FileSet.visible, hstate] using hvisible)
    | _ => cases hr

/-- **What is left of a cycle that went** when a request was made. -/
theorem removed_of_gone (h : Reached (fun d => Made config d ∨ Recovered config d) d) {b : FileCycle}
    (hb : d.catalog.cycle? file = some b) (hgone : (d.handle call r).2.catalog.cycle? file = none) :
    (d.handle call r).2.Removed b := by
  obtain ⟨-, hbooks⟩ := h.books
  have htabled : ∀ later, ((d.handle call r).2.after later).Tabled := fun later =>
    (reached_after (h.handle call r) later).tabled.2
  obtain ⟨hd, hdivided, hcapacity⟩ := divided_of_reached h
  obtain ⟨hd', hdivided', hcapacity'⟩ := divided_of_reached (h.handle call r)
  obtain ⟨-, hbooks'⟩ := hbooks.handle hd call r
  obtain rfl := file_of_cycle? hd hb
  obtain ⟨notes, hturn⟩ := hbooks.turn_handle hd call r b.file
  rw [hgone] at hturn
  obtain ⟨hcreates, hallocates⟩ := hturn.of_gone (by rw [hb]; exact Option.some_ne_none b)
  -- identifiers are never given out again
  have hgiven : (d.handle call r).2.catalog.Gone b.file :=
    ⟨Nat.le_trans (given_of_cycle? hd hb) (lastFile_le_handle hd call r), hgone⟩
  refine ⟨?_, ?_, ?_⟩
  · intro later
    have habsent := (gone_after hd' hgiven later).absent
    exact ⟨habsent, fun call' r' hr' =>
      handle_of_file? (reached_after (h.handle call r) later).tabled.1 (htabled later) hr' habsent⟩
  · refine free_of_removed hd hd' (hdivided.owned hd) (hdivided'.owned hd')
      (hcapacity'.trans hcapacity.symm) hb hgone ?_
    intro other a ha
    obtain ⟨notes', hother⟩ := hbooks.turn_handle hd call r other
    -- the tracks of the other cycles stay where they are
    obtain ⟨e, he, -, htable | ⟨first, count, heq⟩⟩ := hother.keeps hcreates a ha
    · exact ⟨e, he, htable⟩
    · exact absurd heq (hallocates other first count)
  · intro hlast later hlater
    have hnone : (d.handle call r).2.catalog.find? b.item.key.set = none := by
      refine (find?_eq_none_iff_cycle? hd').2 fun other a ha => ?_
      refine hlast a ((mem_cycles_iff_cycle? hd').2 ?_)
      rw [file_of_cycle? hd' ha]
      exact ha
    have hfind := find?_after hd' hbooks' hnone hlater
    exact ⟨hfind, fun call' r' hr' =>
      handle_of_asksFor (reached_after (h.handle call r) later).tabled.1 (htabled later) hr' hfind⟩

/-- **Cycles live so in every state** of a directory that was made empty or recovered from any
image, whatever request anybody makes. -/
theorem lives_of_reached (h : Reached (fun d => Made config d ∨ Recovered config d) d) (call : Call)
    (r : Request) (file : FileId) : d.Lives call r file := by
  obtain ⟨hd, hbooks⟩ := h.books
  refine ⟨?_, ?_, fun b hb hstate hforeign => hbooks.refuses hd hb hstate hforeign, ?_, ?_⟩
  · obtain ⟨notes, hturn⟩ := hbooks.turn_handle hd call r file
    exact hturn.passes fun b hb => hbooks.of_cycle? hd hb
  · intro hnone a ha
    by_contra hgiven
    have hgone := (gone_handle hd ⟨Nat.not_lt.1 hgiven, hnone⟩ call r).2.absent
    rw [Option.mem_def, hgone] at ha
    cases ha
  · intro b hb hstate share hr hheld hall hreply
    exact hbooks.gone_of_released hd h.tabled.2 hb hstate hr hheld hall hreply
  · intro b hb hgone
    exact removed_of_gone h hb hgone

theorem lives_of_reached_doomed :
    ((doomed.handle ⟨⟨1, "RUN1", "USER"⟩, 8, none⟩ .releaseAll).2.handle
        ⟨⟨1, "RUN2", "USER"⟩, 9, none⟩ (.release ⟨1⟩)).2.catalog.cycle? ⟨1⟩ = none ∧
      (doomed.handle ⟨⟨1, "RUN1", "USER"⟩, 8, none⟩ .releaseAll).2.Lives
        ⟨⟨1, "RUN2", "USER"⟩, 9, none⟩ (.release ⟨1⟩) ⟨1⟩ := by
  have hreached : Reached (fun d => Made { packTracks := 4 } d ∨ Recovered { packTracks := 4 } d)
      (doomed.handle ⟨⟨1, "RUN1", "USER"⟩, 8, none⟩ .releaseAll).2 :=
    (reached_doomed (Or.inl (Or.inl rfl))).handle _ _
  exact ⟨by decide +kernel, lives_of_reached hreached _ _ _⟩

/-! ### Whole lives -/

/-- **No cycle ever goes back**: however the directory goes on, a cycle is at least as far in its life
as it was. -/
theorem rank_le_after (h : Reached (fun d => Made config d ∨ Recovered config d) d) {b a : FileCycle}
    (hb : d.catalog.cycle? file = some b) (later : List (Call × Request))
    (ha : (d.after later).catalog.cycle? file = some a) : b.item.state.rank ≤ a.item.state.rank := by
  induction later generalizing d b with
  | nil =>
      obtain rfl := Option.some.inj (hb.symm.trans ha)
      exact Nat.le_refl _
  | cons request later ih =>
      obtain ⟨hd, hbooks⟩ := h.books
      obtain ⟨notes, hturn⟩ := hbooks.turn_handle hd request.1 request.2 file
      have hpasses := hturn.passes fun e he => hbooks.of_cycle? hd he
      have hpresent := (hbooks.of_cycle? hd hb).present
      have hnext := h.handle request.1 request.2
      rw [hb] at hpasses
      cases hm : (d.handle request.1 request.2).2.catalog.cycle? file with
      | none =>
          have hgiven := Nat.le_trans (given_of_cycle? hd hb)
            (lastFile_le_handle hd request.1 request.2)
          have habsent := (gone_after hnext.books.1 ⟨hgiven, hm⟩ later).absent
          have hsome : (d.after (request :: later)).catalog.cycle? file = none := habsent
          rw [hsome] at ha
          cases ha
      | some m =>
          rw [hm] at hpasses
          exact Nat.le_trans (hpasses.rank_le hpresent) (ih hnext hm ha)

end Directory

end FileDirectory
