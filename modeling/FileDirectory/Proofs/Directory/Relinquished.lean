/-
**Releasing everything.**

A client that releases everything goes through what the roster listed for it when it began, while each
release changes cycles, takes file sets away and may fail on the medium.  It ends with nothing
assigned; all others have what they had.  It is told how many cycles there were, unless something went
wrong on the medium.  Whatever went wrong there, the catalog is the one that it has when it releases
its cycles one assignment at a time, in any order.

Main definitions:

* `FileDirectory.Catalog.holding` — how many cycles a client has assigned;
* `FileDirectory.Directory.Relinquished` — what is left when a client has released everything;
* `FileDirectory.Directory.Unhindered` — nothing goes wrong on the medium meanwhile.

Main results:

* `FileDirectory.Directory.Reached.regular` — the catalog of every state is regular;
* `FileDirectory.Directory.catalog_releaseEach` — what releasing cycles in turn makes of the catalog;
* `FileDirectory.Directory.Ready.releaseEach` — it succeeds where nothing goes wrong;
* `FileDirectory.Directory.releaseAll_of_reached` — what releasing everything comes to.
-/

import FileDirectory.Proofs.Catalog.Relinquished
import FileDirectory.Proofs.Directory.Alike
import FileDirectory.Proofs.Directory.Life
import FileDirectory.Proofs.Directory.Ready
import FileDirectory.Proofs.Directory.Refused
import FileDirectory.Proofs.Recovery.Settled

set_option autoImplicit false

namespace FileDirectory

/-- How many cycles a client has assigned. -/
def Catalog.holding (c : Catalog) (client : Client) : Nat :=
  c.cycles.countP fun cycle => 0 < cycle.held client

/-! ### Room in a narrowed catalog -/

/-- Items that are passed over or made no larger do not add up to more. -/
theorem sum_filterMap_le {α β : Type} {f : α → Option β} {g : β → Nat} {g' : α → Nat} {xs : List α}
    (h : ∀ x ∈ xs, ∀ y ∈ f x, g y ≤ g' x) : ((xs.filterMap f).map g).sum ≤ (xs.map g').sum := by
  induction xs with
  | nil => exact Nat.le_refl _
  | cons x xs ih =>
      obtain ⟨hx, hxs⟩ := List.forall_mem_cons.1 h
      rw [List.map_cons, List.sum_cons]
      cases hfx : f x with
      | none =>
          rw [List.filterMap_cons_none hfx]
          exact Nat.le_trans (ih hxs) (Nat.le_add_left _ _)
      | some y =>
          rw [List.filterMap_cons_some hfx, List.map_cons, List.sum_cons]
          exact Nat.add_le_add (hx y hfx) (ih hxs)

/-- What is left of a file set lacks no more sectors than the set, if its cycles have the tables that
they had. -/
theorem Placement.missing_within_le {c c' : Catalog} (hc : c.Indexed) (hc' : c'.Indexed)
    {set : FileSet} (hset : set ∈ c.sets)
    (htables : ∀ file, ∀ a ∈ c'.cycle? file, ∃ b ∈ c.cycle? file, a.item.table = b.item.table)
    (p : Placement) : p.missing (set.within c') ≤ p.missing set := by
  refine Nat.add_le_add_left ?_ _
  rw [FileSet.cycles_within, FileSet.files, List.filterMap_map]
  refine sum_filterMap_le fun d hd a ha => ?_
  have hfile : a.file = d.file := Catalog.file_of_cycle? hc' ha
  obtain ⟨b, hb, htable⟩ := htables d.file a ha
  rw [Catalog.cycle?_of_mem hc hset hd] at hb
  obtain rfl := Option.some.inj hb
  have hneeded : a.item.sectorsNeeded = d.item.sectorsNeeded := by
    rw [MainItem.sectorsNeeded, MainItem.sectorsNeeded, htable]
  rw [hneeded, hfile]

/-- The lead item of a recovered set is in step: no cycle is being cataloged. -/
theorem FileSet.Settled.inStep {set : FileSet} (h : set.Settled) : set.InStep := by
  have hnone : set.cycles.any set.isPlusOne = false := by
    rw [List.any_eq_false]
    intro d hd
    simp [FileSet.isPlusOne, h.live d hd]
  rw [FileSet.InStep, h.cataloged, hnone]

namespace Directory

open Catalog

variable {config : Configuration} {d : Directory} {call : Call} {share : Share} {file : FileId}

/-! ### Every state is regular -/

theorem Recovered.inStep (h : Recovered config d) :
    d.catalog.config = config ∧ ∀ set ∈ d.catalog.sets, set.InStep := by
  obtain ⟨device, device', hrecover⟩ := h
  have hindexed := (keeps_recover hrecover).1
  obtain ⟨found, r, t, staging, hread, hbuild, -, -, rfl⟩ := recover_eq_ok hrecover
  obtain ⟨hcomplete, hrestart⟩ := Recovery.rebuild_iff.1 ⟨r, hbuild, rfl⟩
  refine ⟨(Recovery.divided_rebuild hread hbuild).2.1, fun set hset => ?_⟩
  exact (Recovery.settled_of_restart hread hcomplete hrestart hset
    (hindexed.nonempty set hset)).inStep

/-- **The catalog of every state is regular.** -/
theorem Reached.regular (h : Reached (fun d => Made config d ∨ Recovered config d) d) :
    d.catalog.Regular := by
  obtain ⟨hindexed, hdivided, hcapacity⟩ := divided_of_reached h
  obtain ⟨-, hconfig, hsteps⟩ := h.induction
    (P := fun c => c.config = config ∧ ∀ set ∈ c.sets, set.InStep) (by
      rintro d (hmade | hrecovered)
      · rw [hmade.catalog_eq]
        exact ⟨indexed_empty config, rfl, fun set hset => by cases hset⟩
      · exact ⟨hrecovered.indexed, hrecovered.inStep⟩) (by
      rintro call c set space last hc ⟨hconfig, hsteps⟩ hstep
      exact ⟨(config_put _ _).trans hconfig,
        forall_sets_put hc.ordered hsteps (hstep.inStep hc hsteps)⟩)
  exact ⟨hindexed, hsteps, hdivided, hconfig.symm ▸ hcapacity, h.books.2.cycles⟩

/-- The sectors of the file sets are told apart in every state, if there is a medium. -/
theorem Reached.keeps (h : Reached (fun d => Made config d ∨ Recovered config d) d) :
    ∀ store, d.store = some store → store.Keeps d.catalog := by
  refine (h.performed_induction (P := fun d => ∀ store, d.store = some store →
    store.Keeps d.catalog) ?_ ?_).2
  · rintro d (hmade | hrecovered)
    · refine ⟨hmade.catalog_eq ▸ indexed_empty config, fun store hstore => ?_⟩
      rcases hmade with rfl | ⟨device, hformat⟩
      · cases hstore
      · obtain ⟨device', rfl, -⟩ := format_eq_ok hformat
        cases hstore
        exact keeps_format config device'
    · obtain ⟨device, device', hrecover⟩ := hrecovered
      obtain ⟨hindexed, store, hstore, hkeeps⟩ := keeps_recover hrecover
      refine ⟨hindexed, fun store' hstore' => ?_⟩
      obtain rfl := Option.some.inj (hstore.symm.trans hstore')
      exact hkeeps
  · intro call r d d' hd hkeeps hperformed
    cases hperformed with
    | refused => exact hkeeps
    | performed change hasked =>
        obtain ⟨trouble, hoperated, -⟩ := operated_perform (hasked.steps hd)
        exact hoperated.keeps hd hkeeps

/-! ### What releases make of the catalog -/

theorem catalog_release (d : Directory) (call : Call) (file : FileId) (share : Share) :
    (d.release call file share).2.catalog = d.catalog.relinquish call share file := by
  unfold Directory.release Catalog.relinquish
  cases d.catalog.release call file share with
  | error f => rfl
  | ok change => exact catalog_perform_ok d change

/-- What releasing cycles one assignment at a time makes of the catalog. -/
theorem catalog_after_release (d : Directory) (call : Call) (files : List FileId) :
    (d.after (files.map fun file => (call, .release file))).catalog =
      d.catalog.relinquishAll call .one files := by
  induction files generalizing d with
  | nil => rfl
  | cons file files ih =>
      have hnext : (d.handle call (.release file)).2.catalog = d.catalog.relinquish call .one file :=
        catalog_release d call file .one
      rw [relinquishAll_cons, ← hnext]
      exact ih _

/-- Unless the deadline has passed, a release is not given up. -/
theorem kind_of_release_error (htime : call.expired 1 = false) {f : Failure}
    (h : (d.release call file share).1 = .error f) : f.kind ≠ .aborted := by
  unfold Directory.release at h
  cases houtcome : d.catalog.release call file share with
  | ok change =>
      rw [houtcome] at h
      rw [kind_of_perform h]
      nofun
  | error g =>
      rw [houtcome] at h
      cases h
      rw [release_of_time htime] at houtcome
      split at houtcome
      · cases houtcome
        nofun
      · split at houtcome
        · cases houtcome
          nofun
        · cases houtcome

/-- **What releasing cycles in turn makes of the catalog**, whatever goes wrong on the medium. -/
theorem catalog_releaseEach {looks released : Nat} {trouble : Option Failure} {files : List FileId}
    (htime : ∀ earlier, earlier < looks + 2 * files.length → call.expired earlier = false) :
    (releaseEach call d looks released trouble files).2.catalog =
      d.catalog.relinquishAll call .all files := by
  induction files generalizing d looks released trouble with
  | nil =>
      unfold releaseEach
      cases trouble <;> rfl
  | cons file files ih =>
      rw [List.length_cons] at htime
      have hnow : call.expired (looks + 1) = false := htime _ (by omega)
      have hrest : (call.after looks).expired 1 = false := by rw [call.expired_after, hnow]
      rcases releaseEach_cons call d looks released trouble file files with
        ⟨f, hf, haborted, -⟩ | ⟨-, released', trouble', heq⟩
      · exact absurd haborted (kind_of_release_error hrest hf)
      · have hnext : d.catalog.relinquish (call.after looks) .all file =
            d.catalog.relinquish call .all file := relinquish_after hnow
        rw [heq, ih fun earlier hearlier => htime earlier (by omega), catalog_release, hnext,
          relinquishAll_cons]

/-! ### What a client has -/

/-- As many cycles are released as the client has. -/
theorem Bookkept.length_heldBy (h : d.Bookkept) (hd : d.catalog.Indexed) (htabled : d.Tabled)
    (client : Client) : (d.heldBy client).length = d.catalog.holding client := by
  have hfiles : (d.catalog.cycles.map FileCycle.file).Nodup := by
    have hcycles : d.catalog.cycles.map FileCycle.file = d.catalog.sets.flatMap FileSet.files :=
      List.map_flatMap
    rw [hcycles]
    exact hd.nodup_files
  have hperm : (d.roster.filesOf client).Perm
      ((d.catalog.cycles.filter fun cycle => 0 < cycle.held client).map FileCycle.file) := by
    refine (List.perm_ext_iff_of_nodup (h.roster.nodup_filesOf client)
      (hfiles.sublist (List.filter_sublist.map _))).2 fun file => ?_
    rw [h.lists, List.mem_map]
    constructor
    · rintro ⟨set, hset, cycle, hcycle, hfile, hheld⟩
      exact ⟨cycle, List.mem_filter.2 ⟨mem_cycles.2 ⟨set, hset, hcycle⟩, decide_eq_true hheld⟩, hfile⟩
    · rintro ⟨cycle, hcycle, hfile⟩
      obtain ⟨hin, hheld⟩ := List.mem_filter.1 hcycle
      obtain ⟨set, hset, hcycle⟩ := mem_cycles.1 hin
      exact ⟨set, hset, cycle, hcycle, hfile, of_decide_eq_true hheld⟩
  rw [(h.perm_heldBy hd htabled client).length_eq, hperm.length_eq, List.length_map, holding,
    List.countP_eq_length_filter]

/-! ### Nothing goes wrong -/

/-- **A release succeeds where nothing goes wrong.** -/
theorem Ready.release {limit : Nat} (h : d.Ready limit) (hd : d.catalog.Regular)
    (htime : call.expired 1 = false) (hheld : heldOf (d.catalog.cycle? file) call.client ≠ 0)
    (hlimit : ∀ store, (d.release call file share).2.store = some store →
      store.device.attempts ≤ limit) :
    (d.release call file share).1 = .ok () ∧ (d.release call file share).2.Ready limit := by
  obtain ⟨change, hrelease⟩ := exists_release htime hheld share
  have hsteps := steps_release hrelease
  have hd' := hsteps.indexed hd.indexed
  unfold Directory.release at hlimit ⊢
  rw [hrelease] at hlimit ⊢
  refine h.perform hd.indexed hsteps ?_ hlimit
  -- what is left of the set lacks no more than the set does
  intro after hin
  rw [(narrowed_release hd.indexed hd.inStep hrelease).find?_eq] at hin
  obtain ⟨set, hset, hremaining⟩ := Option.bind_eq_some_iff.1 hin
  rw [remaining] at hremaining
  split at hremaining
  · cases hremaining
  · cases hremaining
    refine ⟨set, hset, Placement.missing_within_le hd.indexed hd'
      ((find?_eq_some_iff hd.indexed.ordered).1 hset).1 ?_⟩
    intro other a ha
    rw [cycle?_of_release hd.indexed hrelease] at ha
    split at ha
    · rename_i heq
      exact heq ▸ table_of_yielded ha
    · exact ⟨a, ha, rfl⟩

/-- Attempts at writing are only ever added. -/
theorem attempts_le_releaseEach {store : Store} (hstore : d.store = some store) (call : Call)
    (looks released : Nat) (trouble : Option Failure) (files : List FileId) :
    ∃ store', (releaseEach call d looks released trouble files).2.store = some store' ∧
      store.device.attempts ≤ store'.device.attempts := by
  refine releaseEach_induction (P := fun e => ∃ store', e.store = some store' ∧
    store.device.attempts ≤ store'.device.attempts) ?_ ⟨store, hstore, Nat.le_refl _⟩ _ _ _ _
  rintro e looks' file ⟨store', hstore', hle⟩
  unfold Directory.release
  cases e.catalog.release (call.after looks') file .all with
  | error f => exact ⟨store', hstore', hle⟩
  | ok change =>
      refine ⟨_, store_perform_ok hstore' change, ?_⟩
      rw [Store.attempts_record]
      exact Nat.le_trans hle (Nat.le_add_right _ _)

/-- A release that succeeds is counted. -/
theorem releaseEach_of_ok {looks released : Nat} {trouble : Option Failure} {files : List FileId}
    (h : (d.release (call.after looks) file .all).1 = .ok ()) :
    releaseEach call d looks released trouble (file :: files) =
      releaseEach call (d.release (call.after looks) file .all).2 (looks + 2) (released + 1) trouble
        files := by
  rw [releaseEach]
  generalize d.release (call.after looks) file .all = outcome at h ⊢
  obtain ⟨answer, d'⟩ := outcome
  cases h
  rfl

/-- **Releasing cycles in turn succeeds where nothing goes wrong**, and each is counted. -/
theorem Ready.releaseEach {limit looks : Nat} (released : Nat) {files : List FileId}
    (h : d.Ready limit) (hd : d.catalog.Regular)
    (htime : ∀ earlier, earlier < looks + 2 * files.length → call.expired earlier = false)
    (hnodup : files.Nodup)
    (hheld : ∀ file ∈ files, heldOf (d.catalog.cycle? file) call.client ≠ 0)
    (hlimit : ∀ store, (Directory.releaseEach call d looks released none files).2.store =
      some store → store.device.attempts ≤ limit) :
    (Directory.releaseEach call d looks released none files).1 = .ok (released + files.length) := by
  induction files generalizing d looks released with
  | nil => rfl
  | cons file files ih =>
      rw [List.length_cons] at htime ⊢
      obtain ⟨hfile, hrest⟩ := List.nodup_cons.1 hnodup
      obtain ⟨hfirst, hothers⟩ := List.forall_mem_cons.1 hheld
      have hnow : (call.after looks).expired 1 = false := by
        rw [call.expired_after, htime _ (by omega)]
      obtain ⟨hregular, -, hcycle?⟩ :=
        hd.relinquish hnow .all file
      rw [← catalog_release] at hregular hcycle?
      -- no attempt of the first release comes after the last of all
      have hfirstLimit : ∀ store, (d.release (call.after looks) file .all).2.store = some store →
          store.device.attempts ≤ limit := by
        intro store hstore
        rcases releaseEach_cons call d looks released none file files with
          ⟨f, hf, haborted, -⟩ | ⟨-, released', trouble', heq⟩
        · exact absurd haborted (kind_of_release_error hnow hf)
        · obtain ⟨store', hstore', hle⟩ :=
            attempts_le_releaseEach hstore call (looks + 2) released' trouble' files
          exact Nat.le_trans hle (hlimit store' (heq ▸ hstore'))
      obtain ⟨hok, hready⟩ := h.release hd hnow hfirst hfirstLimit
      rw [releaseEach_of_ok hok] at hlimit ⊢
      rw [ih (released + 1) hready hregular (fun earlier hearlier => htime earlier (by omega)) hrest
        ?_ hlimit]
      · exact congrArg Except.ok (by omega)
      · intro other hother
        -- what is released leaves the other cycles alone
        have hne : other ≠ file := fun heq => hfile (heq ▸ hother)
        rw [hcycle?, if_neg hne]
        exact hothers other hother

/-! ### What is left -/

/-- What is left of a directory when the client of a call has released everything. -/
structure Relinquished (call : Call) (d e : Directory) : Prop where
  /-- The client has nothing left. -/
  nothing : ∀ file, heldOf (e.catalog.cycle? file) call.client = 0
  /-- The roster lists nothing for it. -/
  unlisted : e.roster.filesOf call.client = []
  /-- All others have what they had. -/
  others : ∀ file client, client ≠ call.client →
    heldOf (e.catalog.cycle? file) client = heldOf (d.catalog.cycle? file) client
  /-- What it did not have is as it was. -/
  kept : ∀ file, heldOf (d.catalog.cycle? file) call.client = 0 →
    e.catalog.cycle? file = d.catalog.cycle? file
  /-- What it was cataloging is live. -/
  live : ∀ file, ∀ b ∈ d.catalog.cycle? file, b.held call.client ≠ 0 →
    b.item.state = .cataloging → ∃ a ∈ e.catalog.cycle? file, a.item.state = .live
  /-- What is being dropped and only it had is gone, and its tracks are free. -/
  gone : ∀ file, ∀ b ∈ d.catalog.cycle? file, b.held call.client ≠ 0 →
    (∀ client, client ≠ call.client → b.held client = 0) → b.item.state = .dropping →
      e.catalog.cycle? file = none ∧ ∀ region ∈ b.item.table.packRegions, ∀ track ∈ region,
        ∃ f ∈ e.catalog.space.regions, track ∈ f

/-- Nothing goes wrong on the medium from one state to a later one: no attempt at writing fails that
is made between the two, and there is a free sector for every record that lacks one. -/
def Unhindered (d e : Directory) : Prop :=
  ∀ store, d.store = some store → ∀ store', e.store = some store' →
    store.device.Working store'.device.attempts ∧ store.missing d.catalog ≤ store.inUse.spare

section Reached

variable (h : Reached (fun d => Made config d ∨ Recovered config d) d)
  (htime : call.expired (2 * d.catalog.holding call.client) = false)

include h htime

/-- The deadline does not pass while everything is released. -/
theorem Reached.time : ∀ earlier, earlier < 1 + 2 * (d.heldBy call.client).length →
    call.expired earlier = false := by
  intro earlier hearlier
  rw [h.books.2.length_heldBy h.books.1 h.tabled.2] at hearlier
  exact Call.expired_eq_false_of_le (by omega) htime

theorem Reached.releaseAll_eq :
    d.releaseAll call = releaseEach call d 1 0 none (d.heldBy call.client) := by
  have hcheck : call.check .releaseAll 0 = .ok () :=
    Call.check_of_expired (h.time htime 0 (by omega))
  rw [releaseAll, hcheck]

theorem Reached.catalog_releaseAll : (d.releaseAll call).2.catalog =
    d.catalog.relinquishAll call .all (d.heldBy call.client) := by
  rw [h.releaseAll_eq htime, catalog_releaseEach (h.time htime)]

/-- All that the client had of each cycle is given up. -/
theorem Reached.cycle?_releaseAll (file : FileId) :
    (d.releaseAll call).2.catalog.cycle? file = yielded call .all (d.catalog.cycle? file) := by
  obtain ⟨hd, hbooks⟩ := h.books
  have hnow : d.heldBy call.client ≠ [] → call.expired 1 = false := fun hne =>
    h.time htime 1 (by have := List.length_pos_iff.2 hne; omega)
  rw [h.catalog_releaseAll htime, (h.regular.relinquishAll .all hnow).2.2]
  refine iterate_yielded_all (fun b hb => (h.regular.of_cycle? b hb).toTallied) fun hheld => ?_
  exact Nat.ne_of_gt (List.count_pos_iff.2 ((hbooks.mem_heldBy_iff hd h.tabled.2).2 hheld))

/-- **What is left when everything was released**, whatever went wrong on the medium. -/
theorem Reached.relinquished : Relinquished call d (d.handle call .releaseAll).2 := by
  obtain ⟨hd, hbooks⟩ := h.books
  obtain ⟨hd', hbooks'⟩ := (h.handle call .releaseAll).books
  have hbefore : ∀ file, ∀ b ∈ d.catalog.cycle? file, b.Tallied := fun file b hb =>
    (h.regular.of_cycle? b hb).toTallied
  have hcycle? : ∀ file, (d.handle call .releaseAll).2.catalog.cycle? file =
      yielded call .all (d.catalog.cycle? file) := h.cycle?_releaseAll htime
  have hnothing : ∀ file,
      heldOf ((d.handle call .releaseAll).2.catalog.cycle? file) call.client = 0 := by
    intro file
    rw [hcycle?]
    exact heldOf_yielded_all (hbefore file)
  constructor
  case nothing => exact hnothing
  case unlisted =>
    refine List.eq_nil_iff_forall_not_mem.2 fun file hfile => ?_
    exact absurd ((hbooks'.mem_filesOf_iff hd').1 hfile) (Nat.not_lt.2 (Nat.le_of_eq (hnothing file)))
  case others =>
    intro file client hne
    rw [hcycle?]
    exact heldOf_yielded_of_ne (hbefore file) hne
  case kept =>
    intro file hheld
    rw [hcycle?, yielded_of_not_held hheld]
  case live =>
    intro file b hb hheld hstate
    rw [hcycle?, Option.mem_def.1 hb]
    exact live_of_yielded_all (hbefore file b hb) hheld hstate
  case gone =>
    intro file b hb hheld hothers hstate
    have hgone : (d.handle call .releaseAll).2.catalog.cycle? file = none := by
      rw [hcycle?, Option.mem_def.1 hb]
      exact yielded_all_eq_none (hbefore file b hb) hheld hothers hstate
    obtain ⟨-, hdivided, hcapacity⟩ := divided_of_reached h
    obtain ⟨-, hdivided', hcapacity'⟩ := divided_of_reached (h.handle call .releaseAll)
    refine ⟨hgone, free_of_removed hd hd' (hdivided.owned hd) (hdivided'.owned hd')
      (hcapacity'.trans hcapacity.symm) hb hgone fun other a ha => ?_⟩
    rw [hcycle?] at ha
    exact table_of_yielded ha

/-- **The client is told how many cycles it had**, if nothing goes wrong on the medium. -/
theorem Reached.answer_releaseAll (hmedium : d.Unhindered (d.handle call .releaseAll).2) :
    (d.handle call .releaseAll).1 = .ok (.released (d.catalog.holding call.client)) := by
  obtain ⟨hd, hbooks⟩ := h.books
  have hhandle : d.handle call .releaseAll =
      replied .released (releaseEach call d 1 0 none (d.heldBy call.client)) := by
    rw [← h.releaseAll_eq htime]
    rfl
  rw [hhandle] at hmedium ⊢
  obtain ⟨limit, hlimit⟩ : ∃ limit, ∀ store',
      (releaseEach call d 1 0 none (d.heldBy call.client)).2.store = some store' →
        store'.device.attempts = limit := by
    cases (releaseEach call d 1 0 none (d.heldBy call.client)).2.store with
    | none => exact ⟨0, nofun⟩
    | some store' => exact ⟨store'.device.attempts, fun _ heq => by rw [Option.some.inj heq]⟩
  have hready : d.Ready limit := by
    intro store hstore
    obtain ⟨store', hstore', -⟩ :=
      attempts_le_releaseEach hstore call 1 0 none (d.heldBy call.client)
    obtain ⟨hworking, hroom⟩ := hmedium store hstore store' hstore'
    exact ⟨h.keeps store hstore, hlimit store' hstore' ▸ hworking, hroom⟩
  have hnodup : (d.heldBy call.client).Nodup :=
    (hbooks.perm_heldBy hd h.tabled.2 call.client).nodup_iff.2 (hbooks.roster.nodup_filesOf _)
  have hanswer := hready.releaseEach 0 h.regular (h.time htime) hnodup
    (fun file hfile => (hbooks.mem_heldBy_iff hd h.tabled.2).1 hfile)
    fun store' hstore' => Nat.le_of_eq (hlimit store' hstore')
  rw [hbooks.length_heldBy hd h.tabled.2, Nat.zero_add] at hanswer
  rw [replied, hanswer]
  rfl

/-- **In which order and in how many shares does not matter.** -/
theorem Reached.catalog_after_releases (hnow : call.expired 1 = false) {files : List FileId}
    (hfiles : ∀ file, heldOf (d.catalog.cycle? file) call.client ≤ files.count file) :
    (d.after (files.map fun file => (call, .release file))).catalog =
      (d.handle call .releaseAll).2.catalog := by
  obtain ⟨hd, hbooks⟩ := h.books
  have hall : (d.handle call .releaseAll).2.catalog =
      d.catalog.relinquishAll call .all (d.heldBy call.client) := h.catalog_releaseAll htime
  rw [hall, catalog_after_release]
  exact (h.regular.relinquishAll_eq hnow
    (fun file hheld => (hbooks.mem_heldBy_iff hd h.tabled.2).2 hheld) hfiles).symm

end Reached

/-- **Releasing everything leaves nothing, and order does not matter**, in every state of a directory
that was made empty or recovered from any image, unless the deadline passes.  Whatever goes wrong on
the medium, the client has nothing left and nobody else has more or less, what it was cataloging is
live, and what only it had of what is being dropped is gone.  Unless something goes wrong it is told
how many cycles it had.  The catalog is the one that it has when the client releases its cycles one
assignment at a time, each as often as it has it, in any order. -/
theorem releaseAll_of_reached (h : Reached (fun d => Made config d ∨ Recovered config d) d)
    (call : Call) (htime : call.expired (2 * d.catalog.holding call.client) = false) :
    Relinquished call d (d.handle call .releaseAll).2 ∧
      (d.Unhindered (d.handle call .releaseAll).2 →
        (d.handle call .releaseAll).1 = .ok (.released (d.catalog.holding call.client))) ∧
      (call.expired 1 = false → ∀ files : List FileId,
        (∀ file, heldOf (d.catalog.cycle? file) call.client ≤ files.count file) →
          (d.after (files.map fun file => (call, .release file))).catalog =
            (d.handle call .releaseAll).2.catalog) :=
  ⟨h.relinquished htime, h.answer_releaseAll htime, fun hnow _ => h.catalog_after_releases htime hnow⟩

/-! ### A directory that has met no failure -/

/-- Only attempts at writing could go wrong in it. -/
theorem Mirrored.unhindered {e : Directory} (h : Mirrored config d)
    (hworking : ∀ store, d.store = some store → ∀ store', e.store = some store' →
      store.device.Working store'.device.attempts) : d.Unhindered e :=
  fun store hstore store' hstore' =>
    ⟨hworking store hstore store' hstore', (h.missing_le hstore).2⟩

/-- A run has a tape twice, which it is cataloging, and a disk file, which it has deleted. -/
def laden : Directory :=
  (empty { packTracks := 8 }).after [
    (⟨⟨1, "RUN1", "USER"⟩, 5, none⟩, .createTape ⟨"Q", "T", .absolute 1, "", "", 0⟩),
    (⟨⟨1, "RUN1", "USER"⟩, 6, none⟩, .assign "Q" "T" (.absolute 1) ""),
    (⟨⟨1, "RUN1", "USER"⟩, 7, none⟩, .createDisk ⟨"Q", "D", .absolute 1, .track, 3, 10⟩),
    (⟨⟨1, "RUN1", "USER"⟩, 8, none⟩, .delete "Q" "D" (.absolute 1) "")]

/-- The call by which the run releases everything, with just enough patience. -/
def ladenCall : Call := ⟨⟨1, "RUN1", "USER"⟩, 9, some 5⟩

/-- So the run may release everything or one assignment after another; and so may one that has a disk
file on a medium of four sectors. -/
theorem releaseAll_of_reached_laden :
    (laden.catalog.holding ladenCall.client = 2 ∧ ladenCall.expired 4 = false ∧
      Relinquished ladenCall laden (laden.handle ladenCall .releaseAll).2 ∧
      (laden.handle ladenCall .releaseAll).1 = .ok (.released 2) ∧
      (laden.after ([⟨1⟩, ⟨2⟩, ⟨1⟩].map fun file => (ladenCall, .release file))).catalog =
        (laden.handle ladenCall .releaseAll).2.catalog) ∧
    ∃ d, format {} { medium := .ofSectorCount 4 } = .ok d ∧ (d.after oneDisk).store ≠ none ∧
      ((d.after oneDisk).handle diskCall .releaseAll).1 = .ok (.released 1) := by
  constructor
  · have hreached : Reached (fun d => Made { packTracks := 8 } d ∨ Recovered { packTracks := 8 } d)
        laden := reached_after (.start (Or.inl (Or.inl rfl))) _
    obtain ⟨hd, hbooks⟩ := hreached.books
    have hcount : laden.catalog.holding ladenCall.client = 2 := by decide +kernel
    have hlisted : laden.roster.filesOf ladenCall.client = [⟨1⟩, ⟨2⟩] := by decide +kernel
    obtain ⟨hleft, hanswer, horder⟩ :=
      releaseAll_of_reached hreached ladenCall (by rw [hcount]; rfl)
    rw [hcount] at hanswer
    refine ⟨hcount, rfl, hleft, hanswer nofun, horder rfl _ fun file => ?_⟩
    by_cases hfile : file ∈ laden.roster.filesOf ladenCall.client
    · rw [hlisted] at hfile
      rcases List.mem_cons.1 hfile with rfl | hfile
      · decide +kernel
      · obtain rfl := List.mem_singleton.1 hfile
        decide +kernel
    · rw [hbooks.mem_filesOf_iff hd] at hfile
      omega
  · obtain ⟨d, hformat, hquiet, htold⟩ := quiet_oneDisk
    have hmirrored := mirrored_after (by decide) hformat hquiet htold
    obtain ⟨store, hstore, -⟩ := hmirrored.mirrors
    have hreached : Reached (fun d => Made {} d ∨ Recovered {} d) (d.after oneDisk) :=
      reached_after (.start (Or.inl (Or.inr ⟨_, hformat⟩))) _
    have hcount : (d.after oneDisk).catalog.holding diskCall.client = 1 := by
      rw [((alike_format hformat).after oneDisk).catalog]
      decide +kernel
    obtain ⟨-, hanswer, -⟩ :=
      releaseAll_of_reached hreached diskCall (by rw [hcount]; rfl)
    rw [hcount] at hanswer
    refine ⟨d, hformat, hstore ▸ Option.some_ne_none store, hanswer (hmirrored.unhindered ?_)⟩
    intro store hstore store' _
    have hhealthy := healthy_after (mirrored_format hformat).indexed
      (healthy_format (Device.healthy_blank 4) hformat) oneDisk store hstore
    exact hhealthy.working _

end Directory

end FileDirectory
