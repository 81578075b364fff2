/-
**Assignments are kept account of.**

How often a cycle is assigned is kept in three places: the item has the number of all assignments,
the holders have their numbers, and the roster lists the cycle for its holders.  Every turn of a
cycle keeps the three in step, and the flags and the creator of the cycle in step with its state.

Main definitions:

* `FileDirectory.FileCycle.total` — how many assignments the holders of a cycle have;
* `FileDirectory.FileCycle.Tallied` — the item counts the assignments of the holders;
* `FileDirectory.FileCycle.Bookkept` — that, and what the state says of holders, creator and flags;
* `FileDirectory.Catalog.heldOf` — how often a client has a cycle assigned that may not exist.

Main results:

* `FileDirectory.Catalog.Turn.bookkept` — every turn leaves a cycle bookkept;
* `FileDirectory.Catalog.Turn.lists` — what it notes makes the roster list the cycle for its holders.
-/

import FileDirectory.Proofs.Catalog.Turn

set_option autoImplicit false

namespace FileDirectory

namespace FileCycle

/-! ### Holders -/

section Holders

variable {client other : Client} {holders : List (Client × Nat)}

/-- The number of all assignments that holders have. -/
def total (holders : List (Client × Nat)) : Nat := (holders.map Prod.snd).foldr (· + ·) 0

@[simp] theorem total_cons (holder : Client × Nat) (holders : List (Client × Nat)) :
    total (holder :: holders) = holder.2 + total holders := rfl

theorem mem_clients_addHolder :
    other ∈ (addHolder client holders).map Prod.fst ↔
      other = client ∨ other ∈ holders.map Prod.fst := by
  induction holders with
  | nil => simp [addHolder]
  | cons holder rest ih =>
      obtain ⟨first, n⟩ := holder
      unfold addHolder
      split
      · rename_i heq
        simp [heq]
      · rw [List.map_cons, List.mem_cons, ih, List.map_cons, List.mem_cons]
        exact or_left_comm

theorem nodup_addHolder (h : (holders.map Prod.fst).Nodup) :
    ((addHolder client holders).map Prod.fst).Nodup := by
  induction holders with
  | nil => exact List.nodup_singleton _
  | cons holder rest ih =>
      obtain ⟨first, n⟩ := holder
      obtain ⟨hfirst, hrest⟩ := List.nodup_cons.1 h
      unfold addHolder
      split
      · exact h
      · rename_i hne
        refine List.nodup_cons.2 ⟨?_, ih hrest⟩
        intro hin
        rcases mem_clients_addHolder.1 hin with heq | hin
        · exact hne heq.symm
        · exact hfirst hin

theorem total_addHolder (client : Client) (holders : List (Client × Nat)) :
    total (addHolder client holders) = total holders + 1 := by
  induction holders with
  | nil => rfl
  | cons holder rest ih =>
      obtain ⟨first, n⟩ := holder
      unfold addHolder
      split
      · simp only [total_cons]
        omega
      · simp only [total_cons, ih]
        omega

theorem positive_addHolder (h : ∀ holder ∈ holders, 0 < holder.2) :
    ∀ holder ∈ addHolder client holders, 0 < holder.2 := by
  induction holders with
  | nil =>
      intro holder hin
      obtain rfl := List.mem_singleton.1 hin
      exact Nat.one_pos
  | cons holder rest ih =>
      obtain ⟨first, n⟩ := holder
      obtain ⟨-, hrest⟩ := List.forall_mem_cons.1 h
      unfold addHolder
      split
      · exact List.forall_mem_cons.2 ⟨Nat.succ_pos n, hrest⟩
      · exact List.forall_mem_cons.2 ⟨h _ List.mem_cons_self, ih hrest⟩

theorem clients_dropHolder_sublist (client : Client) (count : Nat)
    (holders : List (Client × Nat)) :
    ((dropHolder client count holders).map Prod.fst).Sublist (holders.map Prod.fst) := by
  induction holders with
  | nil => exact List.Sublist.refl _
  | cons holder rest ih =>
      obtain ⟨first, n⟩ := holder
      unfold dropHolder
      split
      · split
        · exact List.sublist_cons_self _ _
        · exact List.Sublist.refl _
      · exact ih.cons_cons first

/-- What a client gives up and what is left add up to what there was. -/
theorem total_dropHolder (client : Client) (count : Nat) (holders : List (Client × Nat)) :
    total (dropHolder client count holders) + min count ((holders.lookup client).getD 0) =
      total holders := by
  induction holders with
  | nil => simp [dropHolder]
  | cons holder rest ih =>
      obtain ⟨first, n⟩ := holder
      by_cases heq : client = first
      · subst heq
        unfold dropHolder
        rw [if_pos rfl, List.lookup_cons_self, Option.getD_some]
        split
        · simp only [total_cons]
          omega
        · simp only [total_cons]
          omega
      · have hne : (client == first) = false := by simpa using heq
        unfold dropHolder
        rw [if_neg heq, List.lookup_cons, hne]
        simp only [total_cons]
        omega

theorem positive_dropHolder {count : Nat} (h : ∀ holder ∈ holders, 0 < holder.2) :
    ∀ holder ∈ dropHolder client count holders, 0 < holder.2 := by
  induction holders with
  | nil => exact h
  | cons holder rest ih =>
      obtain ⟨first, n⟩ := holder
      obtain ⟨-, hrest⟩ := List.forall_mem_cons.1 h
      unfold dropHolder
      split
      · split
        · exact hrest
        · rename_i hlt
          exact List.forall_mem_cons.2 ⟨Nat.sub_pos_of_lt (Nat.not_le.1 hlt), hrest⟩
      · exact List.forall_mem_cons.2 ⟨h _ List.mem_cons_self, ih hrest⟩

theorem lookup_dropHolder_self {count : Nat} (h : (holders.map Prod.fst).Nodup) :
    ((dropHolder client count holders).lookup client).getD 0 =
      (holders.lookup client).getD 0 - count := by
  induction holders with
  | nil => simp [dropHolder]
  | cons holder rest ih =>
      obtain ⟨first, n⟩ := holder
      obtain ⟨hfirst, hrest⟩ := List.nodup_cons.1 h
      by_cases heq : client = first
      · subst heq
        unfold dropHolder
        rw [if_pos rfl, List.lookup_cons_self, Option.getD_some]
        split
        · rename_i hle
          rw [lookup_eq_none hfirst, Option.getD_none]
          omega
        · rw [List.lookup_cons_self, Option.getD_some]
      · have hne : (client == first) = false := by simpa using heq
        unfold dropHolder
        rw [if_neg heq, List.lookup_cons, hne, List.lookup_cons, hne]
        exact ih hrest

theorem lookup_dropHolder_of_ne (h : other ≠ client) (count : Nat)
    (holders : List (Client × Nat)) :
    (dropHolder client count holders).lookup other = holders.lookup other := by
  have hother : (other == client) = false := by simpa using h
  induction holders with
  | nil => rfl
  | cons holder rest ih =>
      obtain ⟨first, n⟩ := holder
      by_cases heq : client = first
      · subst heq
        unfold dropHolder
        rw [if_pos rfl]
        split <;> simp [List.lookup_cons, hother]
      · simp [dropHolder, heq, List.lookup_cons, ih]

end Holders

/-! ### Tallies -/

/-- The item counts the assignments of the holders, each of whom is listed once and has some. -/
structure Tallied (c : FileCycle) : Prop where
  assigned : c.item.assigned = total c.holders
  clients : (c.holders.map Prod.fst).Nodup
  positive : ∀ holder ∈ c.holders, 0 < holder.2

section Tallied

variable {c : FileCycle} {client other : Client}

/-- The holders are the clients that have the cycle assigned. -/
theorem Tallied.held_pos_iff (h : c.Tallied) :
    0 < c.held client ↔ client ∈ c.holders.map Prod.fst := by
  unfold held
  constructor
  · intro hpos
    cases hlookup : c.holders.lookup client with
    | none =>
        rw [hlookup] at hpos
        exact absurd hpos (Nat.lt_irrefl 0)
    | some n => exact List.mem_map_of_mem ((lookup_eq_some_iff h.clients).1 hlookup)
  · intro hin
    obtain ⟨⟨holder, n⟩, hholder, rfl⟩ := List.mem_map.1 hin
    rw [(lookup_eq_some_iff h.clients).2 hholder]
    exact h.positive _ hholder

/-- No client has more assignments than there are. -/
theorem Tallied.held_le_assigned (h : c.Tallied) (client : Client) :
    c.held client ≤ c.item.assigned := by
  have hsum := total_dropHolder client (c.held client) c.holders
  rw [h.assigned, ← hsum]
  exact Nat.le_trans (Nat.le_of_eq (Nat.min_self _).symm) (Nat.le_add_left _ _)

/-- What nobody has is not assigned. -/
theorem Tallied.assigned_eq_zero (h : c.Tallied) (hnone : ∀ client, c.held client = 0) :
    c.item.assigned = 0 := by
  have hholders : c.holders = [] := by
    refine List.eq_nil_iff_forall_not_mem.2 fun holder hholder => ?_
    have hpos := h.held_pos_iff.2 (List.mem_map_of_mem hholder)
    rw [hnone] at hpos
    exact absurd hpos (Nat.lt_irrefl 0)
  rw [h.assigned, hholders]
  rfl

theorem Tallied.assign (h : c.Tallied) (client : Client) (now : Nat) :
    (c.assign client now).Tallied where
  assigned := by
    unfold FileCycle.assign
    dsimp only
    rw [total_addHolder, h.assigned]
  clients := nodup_addHolder h.clients
  positive := positive_addHolder h.positive

theorem Tallied.unassign (h : c.Tallied) (client : Client) (count : Nat) :
    (c.unassign client count).Tallied where
  assigned := by
    have hsum := total_dropHolder client count c.holders
    unfold FileCycle.unassign held
    dsimp only
    rw [h.assigned]
    omega
  clients := h.clients.sublist (clients_dropHolder_sublist client count c.holders)
  positive := positive_dropHolder h.positive

/-- A client that has given up some of its assignments has so many less. -/
theorem Tallied.held_unassign_self (h : c.Tallied) (client : Client) (count : Nat) :
    (c.unassign client count).held client = c.held client - count :=
  lookup_dropHolder_self h.clients

/-- All others have as many as before. -/
theorem held_unassign_of_ne (c : FileCycle) (hne : other ≠ client) (count : Nat) :
    (c.unassign client count).held other = c.held other := by
  unfold held FileCycle.unassign
  rw [lookup_dropHolder_of_ne hne]

end Tallied

/-! ### Books -/

/-- The assignments of a cycle are tallied, and its creator, its holders and its flags are in step
with its state. -/
structure Bookkept (c : FileCycle) : Prop extends Tallied c where
  /-- The creator of a cycle that is being cataloged has it assigned, and nobody else has. -/
  creator : c.item.state = .cataloging → ∃ client, c.creator = some client ∧ 0 < c.held client ∧
    ∀ other, other ≠ client → c.held other = 0
  /-- Only such a cycle has a creator. -/
  cataloging : c.creator ≠ none → c.item.state = .cataloging
  dropping : c.item.state = .dropping → 0 < c.item.assigned
  present : c.item.state ≠ .dropped
  toBeCataloged : c.item.descriptor.toBeCataloged = true ↔ c.item.state = .cataloging
  toBeDropped : c.item.descriptor.toBeDropped = true ↔ c.item.state = .dropping

/-- Only the creator has a cycle assigned that is being cataloged. -/
theorem Bookkept.eq_creator {c : FileCycle} (h : c.Bookkept) (hstate : c.item.state = .cataloging)
    {client : Client} (hheld : c.held client ≠ 0) : c.creator = some client := by
  obtain ⟨creator, hcreator, -, hothers⟩ := h.creator hstate
  by_cases heq : client = creator
  · rw [hcreator, heq]
  · exact absurd (hothers client heq) hheld

/-- A change of other fields does not matter. -/
theorem Bookkept.congr {c d : FileCycle} (h : c.Bookkept) (hholders : d.holders = c.holders)
    (hcreator : d.creator = c.creator) (hassigned : d.item.assigned = c.item.assigned)
    (hstate : d.item.state = c.item.state) (hdescriptor : d.item.descriptor = c.item.descriptor) :
    d.Bookkept := by
  have hheld : ∀ client, d.held client = c.held client := by
    intro client
    unfold held
    rw [hholders]
  constructor
  · exact ⟨by rw [hassigned, hholders, h.assigned], by rw [hholders]; exact h.clients,
      by rw [hholders]; exact h.positive⟩
  · rw [hstate, hcreator]
    simp only [hheld]
    exact h.creator
  · rw [hstate, hcreator]
    exact h.cataloging
  · rw [hstate, hassigned]
    exact h.dropping
  · rw [hstate]
    exact h.present
  · rw [hstate, hdescriptor]
    exact h.toBeCataloged
  · rw [hstate, hdescriptor]
    exact h.toBeDropped

/-- A cycle that is live, or that becomes live, needs no more than its tally. -/
theorem Bookkept.ofLive {c : FileCycle} (h : c.Tallied) (hstate : c.item.state = .live)
    (hcreator : c.creator = none)
    (hflags : c.item.descriptor.toBeCataloged = false ∧ c.item.descriptor.toBeDropped = false) :
    c.Bookkept where
  toTallied := h
  creator := by simp [hstate]
  cataloging := by simp [hcreator]
  dropping := by simp [hstate]
  present := by simp [hstate]
  toBeCataloged := by simp [hstate, hflags.1]
  toBeDropped := by simp [hstate, hflags.2]

end FileCycle

namespace Catalog

open FileCycle

variable {call : Call} {r : Request} {file : FileId} {cycle : FileCycle}

/-! ### Every turn keeps the books -/

/-- What a creation puts into the books of its cycle. -/
theorem books_fileCycle (r : Creation) (lead : LeadItem) (number : Nat) (file : FileId)
    (call : Call) (regions : List Region) :
    let cycle := r.fileCycle lead number file call regions
    cycle.holders = [(call.client, 1)] ∧ cycle.item.assigned = 1 ∧ cycle.item.state = r.state ∧
      cycle.creator = (if r.state = .cataloging then some call.client else none) ∧
      cycle.item.descriptor.toBeCataloged = decide (r.state = .cataloging) ∧
      cycle.item.descriptor.toBeDropped = decide (r.state = .dropping) := by
  dsimp only
  unfold Creation.fileCycle FileCycle.assign Creation.item
  dsimp only
  split
  · exact ⟨rfl, rfl, rfl, rfl, rfl, rfl⟩
  · exact ⟨rfl, rfl, rfl, rfl, rfl, rfl⟩

theorem bookkept_fileCycle {r : Creation} (hstate : r.state = .cataloging ∨ r.state = .live)
    (lead : LeadItem) (number : Nat) (file : FileId) (call : Call) (regions : List Region) :
    (r.fileCycle lead number file call regions).Bookkept := by
  obtain ⟨hholders, hassigned, hstate', hcreator, hcataloged, hdropped⟩ :=
    books_fileCycle r lead number file call regions
  generalize r.fileCycle lead number file call regions = cycle at *
  have htallied : cycle.Tallied := by
    refine ⟨by rw [hassigned, hholders]; rfl, by rw [hholders]; exact List.nodup_singleton _, ?_⟩
    rw [hholders]
    intro holder hholder
    obtain rfl := List.mem_singleton.1 hholder
    exact Nat.one_pos
  rcases hstate with hstate | hstate
  · rw [hstate] at hstate' hcreator hcataloged hdropped
    refine ⟨htallied, ?_, fun _ => hstate', by simp [hstate'], by simp [hstate'],
      by simp [hstate', hcataloged], by simp [hstate', hdropped]⟩
    intro _
    refine ⟨call.client, by simpa using hcreator, ?_, ?_⟩
    · rw [htallied.held_pos_iff, hholders]
      exact List.mem_singleton_self _
    · intro other hne
      unfold held
      rw [hholders, List.lookup_cons, beq_false_of_ne hne]
      rfl
  · rw [hstate] at hstate' hcreator hcataloged hdropped
    exact .ofLive htallied hstate' (by simpa using hcreator)
      ⟨by simpa using hcataloged, by simpa using hdropped⟩

/-- A cycle stays bookkept when a client that sees it has it assigned. -/
theorem bookkept_assign (h : cycle.Bookkept) {client : Client}
    (hvisible : FileSet.visible client cycle = true) (now : Nat) :
    (cycle.assign client now).Bookkept := by
  have htallied := h.toTallied.assign client now
  refine ⟨htallied, ?_, h.cataloging, ?_, h.present, h.toBeCataloged, h.toBeDropped⟩
  · intro hstate
    have hstate : cycle.item.state = .cataloging := hstate
    have hcreator : cycle.creator = some client := by
      simpa [FileSet.visible, hstate] using hvisible
    obtain ⟨creator, hsome, -, hothers⟩ := h.creator hstate
    obtain rfl : client = creator := Option.some.inj (hcreator.symm.trans hsome)
    refine ⟨client, hcreator, ?_, ?_⟩
    · rw [held_assign_self]
      exact Nat.succ_pos _
    · intro other hne
      rw [held_assign_of_ne _ hne]
      exact hothers other hne
  · intro _
    exact Nat.succ_pos _

theorem bookkept_cataloged {now : Nat} (h : cycle.Tallied) : (cataloged cycle now).Bookkept :=
  .ofLive ⟨h.assigned, h.clients, h.positive⟩ rfl rfl ⟨rfl, rfl⟩

/-- A live cycle has no creator. -/
theorem creator_eq_none (h : cycle.Bookkept) (hlive : cycle.item.state = .live) :
    cycle.creator = none := by
  by_contra hsome
  have hcataloging := h.cataloging hsome
  rw [hlive] at hcataloging
  cases hcataloging

theorem bookkept_doomed (h : cycle.Bookkept) (hlive : cycle.item.state = .live)
    (hheld : cycle.item.assigned ≠ 0) :
    { cycle with item := cycle.item.withState .dropping : FileCycle }.Bookkept where
  assigned := h.assigned
  clients := h.clients
  positive := h.positive
  creator := fun hstate => by cases hstate
  cataloging := fun hsome => absurd (creator_eq_none h hlive) hsome
  dropping := fun _ => Nat.pos_of_ne_zero hheld
  present := fun hstate => by cases hstate
  toBeCataloged := by simp [MainItem.withState]
  toBeDropped := by simp [MainItem.withState]

theorem tallied_released (h : cycle.Tallied) (share : Share) : (released cycle call share).Tallied :=
  have hunassigned := h.unassign call.client (share.of (cycle.held call.client))
  ⟨hunassigned.assigned, hunassigned.clients, hunassigned.positive⟩

/-- A cycle of which a client has given up some assignments is bookkept, if its state still has the
assignments that it takes. -/
theorem bookkept_released (h : cycle.Bookkept) {share : Share}
    (hcreator : cycle.item.state = .cataloging → ∃ client, cycle.creator = some client ∧
      0 < (released cycle call share).held client ∧
      ∀ other, other ≠ client → (released cycle call share).held other = 0)
    (hdropping : cycle.item.state = .dropping → 0 < (released cycle call share).item.assigned) :
    (released cycle call share).Bookkept where
  toTallied := tallied_released h.toTallied share
  creator := hcreator
  cataloging := h.cataloging
  dropping := hdropping
  present := h.present
  toBeCataloged := h.toBeCataloged
  toBeDropped := h.toBeDropped

/-- What is left of a cycle that a client releases stays bookkept. -/
theorem bookkept_settled (h : cycle.Bookkept) {share : Share} (hheld : cycle.held call.client ≠ 0) :
    ∀ d ∈ settled call share cycle, d.Bookkept := by
  intro d hd
  by_cases hgone : (released cycle call share).item.state = .dropping ∧
      (released cycle call share).item.assigned = 0
  · rw [settled_of_dropping hgone.1 hgone.2] at hd
    cases hd
  by_cases hlast : (released cycle call share).item.state = .cataloging ∧
      (released cycle call share).held call.client = 0
  · rw [settled_of_cataloging hlast.1 hlast.2] at hd
    obtain rfl := Option.some.inj hd
    exact bookkept_cataloged (tallied_released h.toTallied share)
  rw [settled_of_stays hgone hlast] at hd
  obtain rfl := Option.some.inj hd
  refine bookkept_released h (fun hstate => ?_) fun hstate =>
    Nat.pos_of_ne_zero fun hzero => hgone ⟨hstate, hzero⟩
  -- the client is the creator, and still has some of its assignments
  obtain ⟨creator, hsome, -, hnone⟩ := h.creator hstate
  obtain rfl : call.client = creator :=
    Option.some.inj ((h.eq_creator hstate hheld).symm.trans hsome)
  refine ⟨call.client, hsome, Nat.pos_of_ne_zero fun hzero => hlast ⟨hstate, hzero⟩, ?_⟩
  intro other hne
  exact (held_unassign_of_ne cycle hne _).trans (hnone other hne)

/-- **Every turn leaves a cycle bookkept.** -/
theorem Turn.bookkept {before after : Option FileCycle} {notes : List Roster.Note}
    (h : Turn call r file before after notes) (hbefore : ∀ d ∈ before, d.Bookkept) :
    ∀ d ∈ after, d.Bookkept := by
  have hsingle : ∀ {d e : FileCycle}, e ∈ some d → d.Bookkept → e.Bookkept := by
    intro d e he hd
    exact Option.some.inj he ▸ hd
  intro d hd
  cases h with
  | idle => exact hbefore d hd
  | @create creation lead number regions hr =>
      have hstate : creation.state = .cataloging ∨ creation.state = .live := by
        cases r <;> simp [Request.creates] at hr <;> simp [← hr]
      exact hsingle hd (bookkept_fileCycle hstate lead number file call regions)
  | assign _ hvisible => exact hsingle hd (bookkept_assign (hbefore _ rfl) hvisible call.now)
  | catalog => exact hsingle hd (bookkept_cataloged (hbefore _ rfl).toTallied)
  | abort => cases hd
  | delete => cases hd
  | doom _ hlive hheld => exact hsingle hd (bookkept_doomed (hbefore _ rfl) hlive hheld)
  | release _ hheld => exact bookkept_settled (hbefore _ rfl) hheld d hd
  | grow => exact hsingle hd ((hbefore _ rfl).congr rfl rfl rfl rfl rfl)
  | write => exact hsingle hd ((hbefore _ rfl).congr rfl rfl rfl rfl rfl)
  | guard => exact hsingle hd ((hbefore _ rfl).congr rfl rfl rfl rfl rfl)

/-! ### What a turn notes keeps the roster in step -/

/-- How often a client has a cycle assigned, if the cycle exists. -/
def heldOf (cycle? : Option FileCycle) (client : Client) : Nat :=
  (cycle?.map fun cycle => cycle.held client).getD 0

@[simp] theorem heldOf_none (client : Client) : heldOf none client = 0 := rfl

@[simp] theorem heldOf_some (cycle : FileCycle) (client : Client) :
    heldOf (some cycle) client = cycle.held client := rfl

theorem mem_departure {client : Client} :
    .released client file ∈ cycle.departure ↔
      cycle.file = file ∧ client ∈ cycle.holders.map Prod.fst := by
  unfold FileCycle.departure
  simp only [List.mem_map, Roster.Note.released.injEq]
  constructor
  · rintro ⟨holder, hholder, rfl, hfile⟩
    exact ⟨hfile, holder, hholder, rfl⟩
  · rintro ⟨hfile, holder, hholder, rfl⟩
    exact ⟨holder, hholder, rfl, hfile⟩

theorem released_of_mem_departure {n : Roster.Note} (h : n ∈ cycle.departure) :
    ∃ client file, n = .released client file := by
  obtain ⟨holder, -, rfl⟩ := List.mem_map.1 h
  exact ⟨_, _, rfl⟩

theorem released_of_mem_releaseNotes {n : Roster.Note} (h : n ∈ releaseNotes call cycle) :
    ∃ client file, n = .released client file := by
  unfold releaseNotes at h
  rcases List.mem_append.1 h with h | h
  · split at h
    · exact ⟨_, _, List.mem_singleton.1 h⟩
    · cases h
  · split at h
    · exact released_of_mem_departure h
    · cases h

/-- What is noted of a cycle that was released. -/
theorem mem_releaseNotes {client : Client} (h : cycle.Tallied) :
    .released client cycle.file ∈ releaseNotes call cycle ↔
      (client = call.client ∧ cycle.held client = 0) ∨
        (cycle.item.state = .dropping ∧ cycle.item.assigned = 0) ∧ 0 < cycle.held client := by
  unfold releaseNotes
  rw [List.mem_append, h.held_pos_iff]
  refine or_congr ?_ ?_
  · split
    · rename_i hheld
      simp only [List.mem_singleton, Roster.Note.released.injEq, and_true]
      constructor
      · rintro rfl
        exact ⟨rfl, hheld⟩
      · exact And.left
    · rename_i hheld
      simp only [List.not_mem_nil, false_iff]
      rintro ⟨rfl, hnone⟩
      exact hheld hnone
  · split
    · rename_i hlast
      rw [mem_departure]
      exact ⟨fun hin => ⟨hlast, hin.2⟩, fun hin => ⟨rfl, hin.2⟩⟩
    · rename_i hlast
      simp only [List.not_mem_nil, false_iff]
      exact fun hin => hlast hin.1

/-- How much of a released cycle a client has left. -/
theorem held_released (h : cycle.Tallied) (share : Share) (client : Client) :
    (released cycle call share).held client =
      if client = call.client then cycle.held client - share.of (cycle.held client)
      else cycle.held client := by
  split
  · rename_i heq
    subst heq
    exact h.held_unassign_self call.client _
  · rename_i hne
    exact held_unassign_of_ne cycle hne _

/-- What is left of a cycle that was released: nothing if it was being dropped and nobody has it left,
and otherwise the cycle with the holders that the release leaves, which may have become live. -/
theorem settled_cases (call : Call) (share : Share) (cycle : FileCycle) :
    (cycle.item.state = .dropping ∧ (released cycle call share).item.assigned = 0 ∧
        settled call share cycle = none) ∨
      ¬(cycle.item.state = .dropping ∧ (released cycle call share).item.assigned = 0) ∧
        ∃ after, settled call share cycle = some after ∧
          after.holders = (released cycle call share).holders ∧
          after.item.key = cycle.item.key ∧ after.item.table = cycle.item.table ∧
          (after.item.state = cycle.item.state ∨
            cycle.item.state = .cataloging ∧ after.item.state = .live) := by
  by_cases hgone : (released cycle call share).item.state = .dropping ∧
      (released cycle call share).item.assigned = 0
  · exact Or.inl ⟨hgone.1, hgone.2, settled_of_dropping hgone.1 hgone.2⟩
  refine Or.inr ⟨hgone, ?_⟩
  by_cases hlast : (released cycle call share).item.state = .cataloging ∧
      (released cycle call share).held call.client = 0
  · exact ⟨_, settled_of_cataloging hlast.1 hlast.2, rfl, rfl, rfl, Or.inr ⟨hlast.1, rfl⟩⟩
  · exact ⟨_, settled_of_stays hgone hlast, rfl, rfl, rfl, Or.inl rfl⟩

/-- What is noted of a cycle that goes makes the roster list it no more. -/
theorem lists_departure {roster : Roster} (hsound : roster.Sound) (hcycle : cycle.Tallied)
    (hfile : cycle.file = file)
    (hlists : ∀ client, file ∈ roster.filesOf client ↔ 0 < cycle.held client) (client : Client) :
    file ∉ (roster.noteAll cycle.departure).filesOf client := by
  rw [Roster.mem_filesOf_noteAll_released hsound fun _ => released_of_mem_departure, mem_departure,
    hlists, hcycle.held_pos_iff]
  rintro ⟨hin, hout⟩
  exact hout ⟨hfile, hin⟩

/-- What is noted of a release makes the roster list what is left of the cycle for its holders. -/
theorem lists_release {roster : Roster} (hsound : roster.Sound) (hcycle : cycle.Tallied)
    (hlists : ∀ client, cycle.file ∈ roster.filesOf client ↔ 0 < cycle.held client)
    (share : Share) (client : Client) :
    cycle.file ∈ (roster.noteAll (releaseNotes call (released cycle call share))).filesOf client ↔
      0 < heldOf (settled call share cycle) client := by
  have htallied : (released cycle call share).Tallied := tallied_released hcycle share
  have hheld : (released cycle call share).held client = _ := held_released hcycle share client
  have hnotes : .released client cycle.file ∈ releaseNotes call (released cycle call share) ↔ _ :=
    mem_releaseNotes htallied
  have hless : (released cycle call share).held client ≤ cycle.held client := by
    rw [hheld]
    split <;> omega
  -- whoever has nothing left had nothing before, or is the caller
  have hnothing : 0 < cycle.held client → (released cycle call share).held client = 0 →
      client = call.client := by
    intro hpos hzero
    by_contra hne
    rw [hheld, if_neg hne] at hzero
    omega
  rw [Roster.mem_filesOf_noteAll_released hsound fun _ => released_of_mem_releaseNotes, hlists,
    hnotes]
  rcases settled_cases call share cycle with
    ⟨hstate, hlast, hnone⟩ | ⟨hstays, after, hafter, hholders, -⟩
  · rw [hnone, heldOf_none]
    refine iff_of_false ?_ (Nat.lt_irrefl 0)
    rintro ⟨hpos, hnot⟩
    rcases Nat.eq_zero_or_pos ((released cycle call share).held client) with hzero | hleft
    · exact hnot (Or.inl ⟨hnothing hpos hzero, hzero⟩)
    · exact hnot (Or.inr ⟨⟨hstate, hlast⟩, hleft⟩)
  · have hsame : after.held client = (released cycle call share).held client := by
      unfold held
      rw [hholders]
    rw [hafter, heldOf_some, hsame]
    constructor
    · rintro ⟨hpos, hnot⟩
      refine Nat.pos_of_ne_zero fun hzero => ?_
      exact hnot (Or.inl ⟨hnothing hpos hzero, hzero⟩)
    · intro hleft
      refine ⟨Nat.lt_of_lt_of_le hleft hless, ?_⟩
      rintro (⟨-, hzero⟩ | ⟨hgone, -⟩)
      · exact absurd hzero (Nat.ne_of_gt hleft)
      · exact hstays hgone

/-- **What a turn notes makes the roster list the cycle for its holders.** -/
theorem Turn.lists {before after : Option FileCycle} {notes : List Roster.Note}
    (h : Turn call r file before after notes) {roster : Roster} (hsound : roster.Sound)
    (hbefore : ∀ d ∈ before, d.Tallied ∧ d.file = file)
    (hlists : ∀ client, file ∈ roster.filesOf client ↔ 0 < heldOf before client)
    (client : Client) :
    file ∈ (roster.noteAll notes).filesOf client ↔ 0 < heldOf after client := by
  cases h with
  | idle => exact hlists client
  | @create creation lead number regions hr =>
      obtain ⟨hholders, -⟩ := books_fileCycle creation lead number file call regions
      rw [Roster.noteAll_cons, Roster.noteAll_nil, Roster.mem_filesOf_assigned, hlists]
      by_cases heq : client = call.client
      · simp [heq, FileCycle.held, hholders]
      · simp [heq, FileCycle.held, hholders, List.lookup_cons, beq_false_of_ne heq]
  | @assign cycle hr hvisible =>
      rw [Roster.noteAll_cons, Roster.noteAll_nil, Roster.mem_filesOf_assigned, hlists]
      by_cases heq : client = call.client
      · simp [heq]
      · simp [heq, held_assign_of_ne cycle heq]
  | abort =>
      obtain ⟨htallied, hfile⟩ := hbefore _ rfl
      simp [lists_departure hsound htallied hfile hlists client]
  | delete =>
      obtain ⟨htallied, hfile⟩ := hbefore _ rfl
      simp [lists_departure hsound htallied hfile hlists client]
  | release =>
      obtain ⟨htallied, rfl⟩ := hbefore _ rfl
      exact lists_release hsound htallied hlists _ client
  | catalog => exact hlists client
  | doom => exact hlists client
  | grow => exact hlists client
  | write => exact hlists client
  | guard => exact hlists client

end Catalog

end FileDirectory
