/-
**The life of a cycle, turn by turn.**

A cycle begins being cataloged, or live.  Its creator makes it live or aborts it; a live cycle is
deleted, at once if nobody has it assigned, and otherwise it is dropped by the release that gives up
the last of its assignments.  There is no way back, and while a cycle is being cataloged nobody but its
creator does anything with it.

Main definitions:

* `FileDirectory.Catalog.Passes` — how a cycle may go on when a request is made.

Main results:

* `FileDirectory.Catalog.Turn.passes` — every turn of a cycle that is bookkept is such a passage;
* `FileDirectory.Catalog.Turn.trans` — two turns while everything is released make one;
* `FileDirectory.Catalog.Turn.keeps` — a cycle keeps its name, and unless some are allocated its
  tracks.
-/

import FileDirectory.Proofs.Catalog.Bookkeeping

set_option autoImplicit false

namespace FileDirectory.Catalog

variable {call : Call} {r : Request} {file : FileId} {before after : Option FileCycle}
  {notes : List Roster.Note} {cycle : FileCycle}

/-! ### What a release leaves -/

/-- A release is refused if the deadline has passed, or the caller has nothing to give up. -/
theorem release_eq_error {c : Catalog} {share : Share} {f : Failure}
    (h : c.release call file share = .error f) :
    f.kind = .aborted ∨
      (f.kind = .notFound ∨ f.kind = .notAssigned) ∧ heldOf (c.cycle? file) call.client = 0 := by
  simp only [release, bind_eq_error, ite_throw_eq_error] at h
  obtain h | ⟨-, -, h⟩ := h
  · exact Or.inl (Call.kind_of_check h)
  obtain h | ⟨⟨set, cycle⟩, hfound, h⟩ := h
  · obtain ⟨hnone, rfl⟩ := locate_eq_error h
    exact Or.inr ⟨Or.inl rfl, by rw [cycle?, hnone]; rfl⟩
  obtain ⟨hheld, rfl⟩ | ⟨-, h⟩ := h
  · exact Or.inr ⟨Or.inr rfl, by rw [cycle?, locate?_of_locate hfound]; exact hheld⟩
  obtain h | ⟨-, -, h⟩ := h
  · exact Or.inl (Call.kind_of_check h)
  · cases h

/-- One that succeeds leaves of the cycle what is settled. -/
theorem cycle?_release {c : Catalog} (hc : c.Indexed) {share : Share} {change : Change Unit}
    (h : c.release call file share = .ok change) :
    ∃ cycle, c.cycle? file = some cycle ∧ change.catalog.cycle? file = settled call share cycle := by
  have hafter := (steps_release h).indexed hc
  obtain ⟨set, hset, cycle, hcycle, rfl, -, rfl⟩ := release_eq_ok h
  refine ⟨cycle, cycle?_of_mem hc hset hcycle, ?_⟩
  rw [cycle?_settle hc hset hcycle hafter, if_pos rfl]

/-- How many assignments are left when a client gives up a share of its own. -/
theorem assigned_released (call : Call) (share : Share) (cycle : FileCycle) :
    (released cycle call share).item.assigned =
      cycle.item.assigned - min (share.of (cycle.held call.client)) (cycle.held call.client) := rfl

/-- What is left of a cycle that was released has its name and its tracks, and its state unless it was
being cataloged. -/
theorem of_mem_settled {share : Share} {a : FileCycle} (ha : a ∈ settled call share cycle) :
    a.item.key = cycle.item.key ∧ a.item.table = cycle.item.table ∧
      (a.item.state = cycle.item.state ∨ cycle.item.state = .cataloging ∧ a.item.state = .live) := by
  rcases settled_cases call share cycle with ⟨-, -, hnone⟩ | ⟨-, left, hleft, -, hkeeps⟩
  · rw [hnone] at ha
    cases ha
  · rw [hleft] at ha
    obtain rfl := Option.some.inj ha
    exact hkeeps

/-- Only a cycle that is being dropped goes when it is released. -/
theorem state_of_settled_eq_none {share : Share} (h : settled call share cycle = none) :
    cycle.item.state = .dropping := by
  rcases settled_cases call share cycle with ⟨hstate, -⟩ | ⟨-, left, hleft, -⟩
  · exact hstate
  · rw [hleft] at h
    cases h

/-- How much a client has of what is left. -/
theorem heldOf_settled (h : cycle.Tallied) (share : Share) (client : Client) :
    heldOf (settled call share cycle) client = 0 ∨ heldOf (settled call share cycle) client =
      if client = call.client then cycle.held client - share.of (cycle.held client)
      else cycle.held client := by
  rcases settled_cases call share cycle with ⟨-, -, hnone⟩ | ⟨-, left, hleft, hholders, -⟩
  · rw [hnone]
    exact Or.inl rfl
  · have hheld : left.held client = (released cycle call share).held client := by
      unfold FileCycle.held
      rw [hholders]
    rw [hleft, heldOf_some, hheld, held_released h]
    exact Or.inr rfl

/-- A release leaves the assignments of the other clients alone. -/
theorem heldOf_settled_of_ne (h : cycle.Tallied) (share : Share) {client : Client}
    (hne : client ≠ call.client) :
    heldOf (settled call share cycle) client = cycle.held client := by
  have hsame : (released cycle call share).held client = cycle.held client := by
    rw [held_released h, if_neg hne]
  rcases settled_cases call share cycle with ⟨-, hlast, hnone⟩ | ⟨-, left, hleft, hholders, -⟩
  · -- nobody had the cycle but the caller
    have hreleased : (released cycle call share).Tallied := tallied_released h share
    have hle := hreleased.held_le_assigned client
    rw [hlast, hsame] at hle
    rw [hnone, heldOf_none, Nat.le_zero.1 hle]
  · rw [hleft, heldOf_some, ← hsame, FileCycle.held, FileCycle.held, hholders]

/-- A client that releases all its assignments of a cycle has none left. -/
theorem heldOf_settled_all (h : cycle.Tallied) :
    heldOf (settled call .all cycle) call.client = 0 := by
  have hcases : heldOf (settled call .all cycle) call.client = 0 ∨ _ :=
    heldOf_settled h .all call.client
  rcases hcases with hnone | hless
  · exact hnone
  · rw [hless, if_pos rfl]
    exact Nat.sub_self _

/-- No client has more of a cycle after a release. -/
theorem heldOf_settled_le (h : cycle.Tallied) (share : Share) (client : Client) :
    heldOf (settled call share cycle) client ≤ cycle.held client := by
  have hcases : heldOf (settled call share cycle) client = 0 ∨ _ := heldOf_settled h share client
  rcases hcases with hnone | hless
  · rw [hnone]
    exact Nat.zero_le _
  · rw [hless]
    split
    · exact Nat.sub_le _ _
    · exact Nat.le_refl _

/-- **A cycle that is being dropped goes exactly with the release that gives up all there is.** -/
theorem settled_eq_none_iff (h : cycle.Bookkept) (hstate : cycle.item.state = .dropping)
    {share : Share} (hheld : cycle.held call.client ≠ 0) :
    settled call share cycle = none ↔
      cycle.item.assigned = share.of (cycle.held call.client) := by
  have hle := h.held_le_assigned call.client
  have hzero : (released cycle call share).item.assigned = 0 ↔
      cycle.item.assigned = share.of (cycle.held call.client) := by
    rw [assigned_released]
    cases share with
    | one =>
        simp only [Share.of]
        omega
    | all =>
        simp only [Share.of]
        omega
  rw [← hzero]
  rcases settled_cases call share cycle with ⟨-, hlast, hnone⟩ | ⟨hstays, after, hafter, -⟩
  · exact iff_of_true hnone hlast
  · rw [hafter]
    exact iff_of_false (fun heq => (by cases heq)) fun hlast => hstays ⟨hstate, hlast⟩

/-! ### What stays of a cycle -/

/-- A cycle that is there after a request that creates none was there before, under its name, and on
its tracks unless the request allocates some to it. -/
theorem Turn.keeps (h : Turn call r file before after notes) (hr : r.creates = none) :
    ∀ a ∈ after, ∃ b ∈ before, a.item.key = b.item.key ∧
      (a.item.table = b.item.table ∨ ∃ first count, r = .allocateTracks file first count) := by
  have hsame : ∀ {b d : FileCycle}, d.item.key = b.item.key → d.item.table = b.item.table →
      ∀ a ∈ some d, ∃ e ∈ some b, a.item.key = e.item.key ∧ (a.item.table = e.item.table ∨
        ∃ first count, r = .allocateTracks file first count) := by
    intro b d hkey htable a ha
    obtain rfl := Option.some.inj ha
    exact ⟨b, rfl, hkey, Or.inl htable⟩
  cases h with
  | idle =>
      intro a ha
      exact ⟨a, ha, rfl, Or.inl rfl⟩
  | create hcreates =>
      rw [hr] at hcreates
      cases hcreates
  | abort =>
      intro a ha
      cases ha
  | delete =>
      intro a ha
      cases ha
  | release =>
      intro a ha
      obtain ⟨hkey, htable, -⟩ := of_mem_settled ha
      exact ⟨_, rfl, hkey, Or.inl htable⟩
  | assign => exact hsame rfl rfl
  | catalog => exact hsame rfl rfl
  | doom => exact hsame rfl rfl
  | grow hallocates =>
      intro a ha
      obtain rfl := Option.some.inj ha
      exact ⟨_, rfl, rfl, Or.inr ⟨_, _, hallocates⟩⟩
  | write => exact hsame rfl rfl
  | guard => exact hsame rfl rfl

/-! ### Releasing everything -/

/-- Releasing everything leaves a cycle alone, or releases all that the caller has of it. -/
theorem Turn.releaseAll_cases (h : Turn call .releaseAll file before after notes) :
    after = before ∨ ∃ cycle, before = some cycle ∧ cycle.held call.client ≠ 0 ∧
      after = settled call .all cycle ∧ notes = releaseNotes call (released cycle call .all) := by
  cases h with
  | idle => exact Or.inl rfl
  | release hr hheld =>
      cases hr
      exact Or.inr ⟨_, rfl, hheld, rfl, rfl⟩
  | create hr => cases hr
  | assign hr => cases hr
  | catalog hr => cases hr
  | abort hr => cases hr
  | doom hr => cases hr
  | delete hr => cases hr
  | grow hr => cases hr
  | write hr => cases hr
  | guard hr => cases hr

/-- What the caller does not have, releasing everything leaves alone. -/
theorem Turn.eq_of_not_held (h : Turn call .releaseAll file before after notes)
    (hheld : heldOf before call.client = 0) : after = before := by
  rcases h.releaseAll_cases with hsame | ⟨cycle, rfl, hpos, -⟩
  · exact hsame
  · exact absurd hheld hpos

/-- **Two turns while everything is released make one**: what was released once is not held any
more. -/
theorem Turn.trans {last : Option FileCycle} {notes' : List Roster.Note}
    (h : Turn call .releaseAll file before after notes)
    (hnext : Turn call .releaseAll file after last notes') (hb : ∀ b ∈ before, b.Tallied) :
    ∃ notes, Turn call .releaseAll file before last notes := by
  rcases h.releaseAll_cases with rfl | ⟨cycle, rfl, hheld, rfl, rfl⟩
  · exact ⟨notes', hnext⟩
  · rw [hnext.eq_of_not_held (heldOf_settled_all (hb cycle rfl))]
    exact ⟨_, h⟩

/-! ### Passages -/

/-- How a cycle may go on when a request is made. -/
structure Passes (call : Call) (r : Request) (file : FileId) (before after : Option FileCycle) :
    Prop where
  /-- It begins in the state of a cycle of its kind. -/
  begins : before = none → ∀ a ∈ after, r.creates = some a.item.state
  /-- While it is being cataloged, only its creator makes it live or has it go, by aborting it. -/
  fromCataloging : ∀ b ∈ before, b.item.state = .cataloging →
    (∀ a ∈ after, a.item.state = .cataloging ∨
      a.item.state = .live ∧ b.creator = some call.client) ∧
    (after = none → r = .abort file ∧ b.creator = some call.client)
  /-- A live cycle is deleted: it goes if nobody has it assigned, and is being dropped otherwise. -/
  fromLive : ∀ b ∈ before, b.item.state = .live →
    (∀ a ∈ after, a.item.state = .live ∨
      a.item.state = .dropping ∧ r.isDelete = true ∧ b.item.assigned ≠ 0) ∧
    (after = none → r.isDelete = true ∧ ∀ client, b.held client = 0)
  /-- While it is being dropped nobody gets more of it, and it goes when the last assignments are
  released. -/
  fromDropping : ∀ b ∈ before, b.item.state = .dropping →
    (∀ a ∈ after, a.item.state = .dropping ∧ ∀ client, a.held client ≤ b.held client) ∧
    (after = none → ∃ share, r.share file = some share ∧ 0 < b.held call.client ∧
      b.item.assigned = share.of (b.held call.client))
  /-- No cycle is ever there that was dropped. -/
  present : ∀ a ∈ after, a.item.state ≠ .dropped
  /-- While it is being cataloged, nobody but its creator does anything to its state, its creator or
  its assignments. -/
  foreign : ∀ b ∈ before, b.item.state = .cataloging → b.creator ≠ some call.client →
    ∃ a ∈ after, a.item.state = .cataloging ∧ a.creator = b.creator ∧ a.holders = b.holders

/-- A turn that leaves state, creator and holders as they are is a passage. -/
theorem passes_of_same {b a : FileCycle} (hstate : a.item.state = b.item.state)
    (hcreator : a.creator = b.creator) (hholders : a.holders = b.holders)
    (hpresent : b.item.state ≠ .dropped) : Passes call r file (some b) (some a) := by
  have hheld : ∀ client, a.held client = b.held client := by
    intro client
    unfold FileCycle.held
    rw [hholders]
  constructor
  case begins => exact nofun
  case fromCataloging =>
    rintro _ ⟨⟩ hb
    refine ⟨?_, fun hnone => (by cases hnone)⟩
    rintro _ ⟨⟩
    exact Or.inl (hstate.trans hb)
  case fromLive =>
    rintro _ ⟨⟩ hb
    refine ⟨?_, fun hnone => (by cases hnone)⟩
    rintro _ ⟨⟩
    exact Or.inl (hstate.trans hb)
  case fromDropping =>
    rintro _ ⟨⟩ hb
    refine ⟨?_, fun hnone => (by cases hnone)⟩
    rintro _ ⟨⟩
    exact ⟨hstate.trans hb, fun client => Nat.le_of_eq (hheld client)⟩
  case present =>
    rintro _ ⟨⟩
    rw [hstate]
    exact hpresent
  case foreign =>
    rintro _ ⟨⟩ hb -
    exact ⟨a, rfl, hstate.trans hb, hcreator, hholders⟩

/-- A turn of a cycle that its creator is cataloging is a passage, if it goes only by an abort. -/
theorem passes_of_creator {b : FileCycle} (hstate : b.item.state = .cataloging)
    (hcreator : b.creator = some call.client)
    (hafter : ∀ a ∈ after, a.item.state = .cataloging ∨ a.item.state = .live)
    (hgone : after = none → r = .abort file) : Passes call r file (some b) after := by
  constructor
  case begins => exact nofun
  case fromCataloging =>
    rintro _ ⟨⟩ -
    refine ⟨fun a ha => (hafter a ha).imp_right fun hlive => ⟨hlive, hcreator⟩, fun hnone => ?_⟩
    exact ⟨hgone hnone, hcreator⟩
  case fromLive =>
    rintro _ ⟨⟩ hlive
    rw [hstate] at hlive
    cases hlive
  case fromDropping =>
    rintro _ ⟨⟩ hdropping
    rw [hstate] at hdropping
    cases hdropping
  case present =>
    intro a ha hdropped
    rcases hafter a ha with hsame | hlive
    · rw [hdropped] at hsame
      cases hsame
    · rw [hdropped] at hlive
      cases hlive
  case foreign =>
    rintro _ ⟨⟩ - hforeign
    exact absurd hcreator hforeign

/-- A turn of a live cycle is a passage, if the cycle stays live or is deleted. -/
theorem passes_of_live {b : FileCycle} (hstate : b.item.state = .live)
    (hafter : ∀ a ∈ after, a.item.state = .live ∨
      a.item.state = .dropping ∧ r.isDelete = true ∧ b.item.assigned ≠ 0)
    (hgone : after = none → r.isDelete = true ∧ ∀ client, b.held client = 0) :
    Passes call r file (some b) after := by
  constructor
  case begins => exact nofun
  case fromCataloging =>
    rintro _ ⟨⟩ hcataloging
    rw [hstate] at hcataloging
    cases hcataloging
  case fromLive =>
    rintro _ ⟨⟩ -
    exact ⟨hafter, hgone⟩
  case fromDropping =>
    rintro _ ⟨⟩ hdropping
    rw [hstate] at hdropping
    cases hdropping
  case present =>
    intro a ha hdropped
    rcases hafter a ha with hlive | ⟨hdropping, -⟩
    · rw [hdropped] at hlive
      cases hlive
    · rw [hdropped] at hdropping
      cases hdropping
  case foreign =>
    rintro _ ⟨⟩ hcataloging
    rw [hstate] at hcataloging
    cases hcataloging

/-- A turn of a cycle that is being dropped is a passage, if it goes with its last assignments. -/
theorem passes_of_dropping {b : FileCycle} (hstate : b.item.state = .dropping)
    (hafter : ∀ a ∈ after, a.item.state = .dropping ∧ ∀ client, a.held client ≤ b.held client)
    (hgone : after = none → ∃ share, r.share file = some share ∧ 0 < b.held call.client ∧
      b.item.assigned = share.of (b.held call.client)) :
    Passes call r file (some b) after := by
  constructor
  case begins => exact nofun
  case fromCataloging =>
    rintro _ ⟨⟩ hcataloging
    rw [hstate] at hcataloging
    cases hcataloging
  case fromLive =>
    rintro _ ⟨⟩ hlive
    rw [hstate] at hlive
    cases hlive
  case fromDropping =>
    rintro _ ⟨⟩ -
    exact ⟨hafter, hgone⟩
  case present =>
    intro a ha hdropped
    rw [(hafter a ha).1] at hdropped
    cases hdropped
  case foreign =>
    rintro _ ⟨⟩ hcataloging
    rw [hstate] at hcataloging
    cases hcataloging

/-- What a release leaves of a cycle is a passage. -/
theorem passes_settled (h : cycle.Bookkept) {share : Share} (hr : r.share file = some share)
    (hheld : cycle.held call.client ≠ 0) :
    Passes call r file (some cycle) (settled call share cycle) := by
  have hgone : settled call share cycle = none → cycle.item.state = .dropping :=
    state_of_settled_eq_none
  cases hstate : cycle.item.state with
  | cataloging =>
      refine passes_of_creator hstate (h.eq_creator hstate hheld) ?_ ?_
      · intro a ha
        obtain ⟨-, -, hsame⟩ := of_mem_settled ha
        exact hsame.imp (fun heq => heq.trans hstate) And.right
      · intro hnone
        rw [hgone hnone] at hstate
        cases hstate
  | live =>
      refine passes_of_live hstate ?_ ?_
      · intro a ha
        obtain ⟨-, -, hsame⟩ := of_mem_settled ha
        exact Or.inl (hsame.elim (fun heq => heq.trans hstate) And.right)
      · intro hnone
        rw [hgone hnone] at hstate
        cases hstate
  | dropping =>
      refine passes_of_dropping hstate ?_ ?_
      · intro a ha
        obtain ⟨-, -, hsame⟩ := of_mem_settled ha
        rw [hstate] at hsame
        refine ⟨hsame.elim id fun hlive => (by cases hlive.1), fun client => ?_⟩
        have hless : heldOf (settled call share cycle) client ≤ _ :=
          heldOf_settled_le h.toTallied share client
        rwa [Option.mem_def.1 ha] at hless
      · intro hnone
        exact ⟨share, hr, Nat.pos_of_ne_zero hheld, (settled_eq_none_iff h hstate hheld).1 hnone⟩
  | dropped => exact absurd hstate h.present

/-- **Every turn of a cycle that is bookkept is such a passage.** -/
theorem Turn.passes (h : Turn call r file before after notes) (hb : ∀ b ∈ before, b.Bookkept) :
    Passes call r file before after := by
  have hsame : ∀ {b a : FileCycle}, b.Bookkept → a.item.state = b.item.state →
      a.creator = b.creator → a.holders = b.holders → Passes call r file (some b) (some a) :=
    fun hb hstate hcreator hholders => passes_of_same hstate hcreator hholders hb.present
  cases h with
  | idle =>
      cases before with
      | none => refine ⟨?_, ?_, ?_, ?_, ?_, ?_⟩ <;> simp
      | some b => exact hsame (hb b rfl) rfl rfl rfl
  | @create creation lead number regions hr =>
      obtain ⟨-, -, hstate, -⟩ := books_fileCycle creation lead number file call regions
      have hturn : Turn call r file none
        (some (creation.fileCycle lead number file call regions)) _ := .create hr
      have hpresent := hturn.bookkept (by simp)
      refine ⟨?_, by simp, by simp, by simp, fun a ha => (hpresent a ha).present, by simp⟩
      rintro - _ ⟨⟩
      rw [hr, hstate]
  | @assign cycle hr hvisible =>
      cases hstate : cycle.item.state with
      | cataloging =>
          refine passes_of_creator hstate (by simpa [FileSet.visible, hstate] using hvisible) ?_ ?_
          · rintro _ ⟨⟩
            exact Or.inl hstate
          · intro hnone
            cases hnone
      | live =>
          refine passes_of_live hstate ?_ ?_
          · rintro _ ⟨⟩
            exact Or.inl hstate
          · intro hnone
            cases hnone
      | dropping => simp [FileSet.visible, hstate] at hvisible
      | dropped => simp [FileSet.visible, hstate] at hvisible
  | catalog hr hstate hcreator =>
      refine passes_of_creator hstate hcreator ?_ ?_
      · rintro _ ⟨⟩
        exact Or.inr rfl
      · intro hnone
        cases hnone
  | abort hr hstate hcreator =>
      exact passes_of_creator hstate hcreator (by simp) fun _ => hr
  | doom hr hlive hheld =>
      refine passes_of_live hlive ?_ ?_
      · rintro _ ⟨⟩
        exact Or.inr ⟨rfl, hr, hheld⟩
      · intro hnone
        cases hnone
  | @delete cycle hr hlive hheld =>
      refine passes_of_live hlive (by simp) fun _ => ⟨hr, fun client => ?_⟩
      have hle := (hb cycle rfl).held_le_assigned client
      omega
  | release hr hheld => exact passes_settled (hb _ rfl) hr hheld
  | grow => exact hsame (hb _ rfl) rfl rfl rfl
  | write => exact hsame (hb _ rfl) rfl rfl rfl
  | guard => exact hsame (hb _ rfl) rfl rfl rfl

end FileDirectory.Catalog
