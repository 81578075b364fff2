/-
**Staging accounts for every sector.**

Staging the records of a file set starts from the sectors that the set has.  It takes free sectors
into use where more are needed and clears those that are needed no longer, so that the sectors the
set has afterwards, with those that are cleared, are the ones it had, with those that were taken.
No sector is written twice.

Main definitions:

* `FileDirectory.SectorMap.Taken` — free sectors are taken into use;
* `FileDirectory.Staging.Account` — what staging takes, clears and writes for an owner of sectors;
* `FileDirectory.Staging.Settled` — a cycle has a sector for each of its records, or is noted as
  one for which there was no space.

Main results:

* `FileDirectory.SectorMap.taken_claim` — a claim takes the lowest free sectors into use;
* `FileDirectory.Staging.Account.append` — accounts of parts add up;
* `FileDirectory.Store.account_stage` — the account of a whole file set.
-/

import FileDirectory.Proofs.Catalog.Indexed
import Mathlib.Data.List.Perm.Subperm

set_option autoImplicit false

namespace FileDirectory

/-! ### Taking sectors into use -/

namespace SectorMap

/-- The given sectors, free before, are in use afterwards; nothing else has changed. -/
structure Taken (before : SectorMap) (sectors : List Nat) (after : SectorMap) : Prop where
  nodup : sectors.Nodup
  free : ∀ sector ∈ sectors, before[sector]? = some false
  getElem? : ∀ sector, after[sector]? = if sector ∈ sectors then some true else before[sector]?

theorem taken_nil (inUse : SectorMap) : Taken inUse [] inUse where
  nodup := List.nodup_nil
  free := by intro sector hsector; cases hsector
  getElem? := by intro sector; rfl

/-- Taking some sectors and then others is taking all of them. -/
theorem Taken.append {a b c : SectorMap} {first second : List Nat} (hfirst : Taken a first b)
    (hsecond : Taken b second c) : Taken a (first ++ second) c := by
  have hapart : ∀ sector ∈ second, sector ∉ first := by
    intro sector hin hout
    have hfree := hsecond.free sector hin
    rw [hfirst.getElem?, if_pos hout] at hfree
    cases hfree
  refine ⟨?_, ?_, ?_⟩
  · rw [List.nodup_append]
    refine ⟨hfirst.nodup, hsecond.nodup, ?_⟩
    rintro sector hin other hother rfl
    exact hapart sector hother hin
  · intro sector hsector
    rcases List.mem_append.1 hsector with hin | hin
    · exact hfirst.free sector hin
    · have hfree := hsecond.free sector hin
      rwa [hfirst.getElem?, if_neg (hapart sector hin)] at hfree
  · intro sector
    rw [hsecond.getElem?, hfirst.getElem?]
    by_cases h₁ : sector ∈ first <;> by_cases h₂ : sector ∈ second <;> simp [h₁, h₂]

theorem Taken.length_eq {before after : SectorMap} {sectors : List Nat}
    (h : Taken before sectors after) : after.length = before.length := by
  have hsame : ∀ sector : Nat, after[sector]? = none ↔ before[sector]? = none := by
    intro sector
    rw [h.getElem?]
    split
    · rename_i hin
      rw [h.free sector hin]
      simp
    · exact Iff.rfl
  have hle : ∀ n, after.length ≤ n ↔ before.length ≤ n := by
    intro n
    rw [← List.getElem?_eq_none_iff, ← List.getElem?_eq_none_iff, hsame]
  exact Nat.le_antisymm ((hle _).2 (Nat.le_refl _)) ((hle _).1 (Nat.le_refl _))

theorem lowestFree_eq_some {inUse : SectorMap} {sector : Nat} (h : lowestFree inUse = some sector) :
    inUse[sector]? = some false := by
  obtain ⟨hlt, hfree, -⟩ := List.findIdx?_eq_some_iff_getElem.1 h
  rw [List.getElem?_eq_getElem hlt]
  simpa using hfree

theorem taken_set {inUse : SectorMap} {sector : Nat} (hfree : inUse[sector]? = some false) :
    Taken inUse [sector] (inUse.set sector true) where
  nodup := List.nodup_singleton sector
  free := by
    intro other hother
    rwa [List.mem_singleton.1 hother]
  getElem? := by
    intro other
    have hlt : sector < inUse.length := (List.getElem?_eq_some_iff.1 hfree).1
    rw [List.getElem?_set]
    by_cases heq : sector = other
    · subst heq
      simp [hlt]
    · simp [heq, Ne.symm heq]

/-- **A claim takes free sectors into use**: as many as are asked for, or all that are free. -/
theorem taken_claim (count : Nat) (inUse : SectorMap) :
    Taken inUse (claim count inUse).1 (claim count inUse).2 ∧
      (claim count inUse).1.length ≤ count ∧
      ((claim count inUse).1.length < count → lowestFree (claim count inUse).2 = none) := by
  induction count generalizing inUse with
  | zero => exact ⟨taken_nil inUse, Nat.le_refl _, fun h => absurd h (Nat.lt_irrefl _)⟩
  | succ count ih =>
      rw [claim]
      cases hfree : lowestFree inUse with
      | none => exact ⟨taken_nil inUse, Nat.zero_le _, fun _ => hfree⟩
      | some sector =>
          obtain ⟨htaken, hle, hnone⟩ := ih (inUse.set sector true)
          refine ⟨(taken_set (lowestFree_eq_some hfree)).append htaken, Nat.succ_le_succ hle, ?_⟩
          intro hlt
          exact hnone (Nat.lt_of_succ_lt_succ hlt)

theorem claim_of_full {count : Nat} {inUse : SectorMap} (h : lowestFree inUse = none) :
    claim count inUse = ([], inUse) := by
  cases count with
  | zero => rfl
  | succ count => rw [claim, h]

/-- The sectors that are in use once some have been freed. -/
theorem getElem?_release (inUse : SectorMap) (sectors : List Nat) (sector : Nat) :
    (inUse.release sectors)[sector]? =
      if sector ∈ sectors ∧ sector < inUse.length then some false else inUse[sector]? := by
  unfold release
  induction sectors generalizing inUse with
  | nil => simp
  | cons first rest ih =>
      rw [List.foldl_cons, ih, List.length_set, List.getElem?_set]
      by_cases heq : sector = first
      · subst heq
        by_cases hlt : sector < inUse.length <;> simp [hlt]
      · simp [heq, Ne.symm heq]

@[simp] theorem length_release (inUse : SectorMap) (sectors : List Nat) :
    (inUse.release sectors).length = inUse.length := by
  unfold release
  induction sectors generalizing inUse with
  | nil => rfl
  | cons first rest ih => rw [List.foldl_cons, ih, List.length_set]

end SectorMap

/-! ### Accounts -/

/-- Four runs in another order. -/
theorem perm_append_swap_middle {α : Type} (a b c d : List α) :
    ((a ++ b) ++ (c ++ d)).Perm ((a ++ c) ++ (b ++ d)) := by
  rw [List.append_assoc, List.append_assoc]
  exact (List.perm_append_comm_assoc b c d).append_left a

namespace Staging

/-- The writes that clear sectors. -/
def clearing (sectors : List Nat) : List Write :=
  sectors.map fun sector => { sector, content := Sector.zero }

/-- The writes of the records of a cycle to its sectors. -/
def recording (file : FileId) (item : MainItem) (sectors : List Nat) : List Write :=
  (sectors.zip item.records).map fun (sector, content) => { sector, content, file := some file }

@[simp] theorem sectors_clearing (sectors : List Nat) :
    (clearing sectors).map Write.sector = sectors := by
  simp [clearing, Function.comp_def]

/-- Staging, by an owner of the sectors `old`, takes the sectors `claimed` into use, clears the
sectors `freed` and stages `writes`; the owner then has the sectors `new`. -/
structure Account (s : Staging) (old claimed freed : List Nat) (writes : List Write) (t : Staging)
    (new : List Nat) : Prop where
  taken : s.inUse.Taken claimed t.inUse
  freed_eq : t.freed = s.freed ++ freed
  writes_eq : t.writes = s.writes ++ writes
  perm : (new ++ freed).Perm (old ++ claimed)
  subperm : (writes.map Write.sector).Subperm (new ++ freed)
  clears : ∀ w ∈ clearing freed, w ∈ writes

/-- An account does not depend on the order in which the sectors are told. -/
theorem Account.congr {s t : Staging} {old old' claimed freed new new' : List Nat}
    {writes : List Write} (h : Account s old claimed freed writes t new) (hold : old.Perm old')
    (hnew : new.Perm new') : Account s old' claimed freed writes t new' :=
  { h with
    perm := (hnew.symm.append_right _).trans (h.perm.trans (hold.append_right _))
    subperm := h.subperm.trans (hnew.append_right _).subperm }

/-- The accounts of two owners, one after the other, add up. -/
theorem Account.append {s t u : Staging} {old₁ claimed₁ freed₁ new₁ old₂ claimed₂ freed₂ new₂ :
    List Nat} {writes₁ writes₂ : List Write} (h₁ : Account s old₁ claimed₁ freed₁ writes₁ t new₁)
    (h₂ : Account t old₂ claimed₂ freed₂ writes₂ u new₂) :
    Account s (old₁ ++ old₂) (claimed₁ ++ claimed₂) (freed₁ ++ freed₂) (writes₁ ++ writes₂) u
      (new₁ ++ new₂) where
  taken := h₁.taken.append h₂.taken
  freed_eq := by rw [h₂.freed_eq, h₁.freed_eq, List.append_assoc]
  writes_eq := by rw [h₂.writes_eq, h₁.writes_eq, List.append_assoc]
  perm := (perm_append_swap_middle new₁ new₂ freed₁ freed₂).trans
    ((h₁.perm.append h₂.perm).trans (perm_append_swap_middle old₁ claimed₁ old₂ claimed₂))
  subperm := by
    rw [List.map_append]
    refine List.Subperm.trans ?_ (perm_append_swap_middle new₁ freed₁ new₂ freed₂).subperm
    exact (List.subperm_append_right _).2 h₁.subperm |>.trans
      ((List.subperm_append_left _).2 h₂.subperm)
  clears := by
    intro w hw
    rw [clearing, List.map_append, List.mem_append] at hw
    rcases hw with hw | hw
    · exact List.mem_append_left _ (h₁.clears w hw)
    · exact List.mem_append_right _ (h₂.clears w hw)

/-- Clearing sectors that the owner then no longer has. -/
theorem account_free (s : Staging) (sectors : List Nat) :
    Account s sectors [] sectors (clearing sectors) (s.free sectors) [] where
  taken := SectorMap.taken_nil _
  freed_eq := rfl
  writes_eq := rfl
  perm := by simp
  subperm := by simpa using List.Subperm.refl sectors
  clears := fun _ hw => hw

/-- Taking sectors into use that nothing is written to. -/
theorem account_taking {s t : Staging} {claimed : List Nat} (old : List Nat)
    (htaken : s.inUse.Taken claimed t.inUse) (hfreed : t.freed = s.freed)
    (hwrites : t.writes = s.writes) : Account s old claimed [] [] t (old ++ claimed) where
  taken := htaken
  freed_eq := by rw [hfreed, List.append_nil]
  writes_eq := by rw [hwrites, List.append_nil]
  perm := by rw [List.append_nil]
  subperm := List.nil_subperm
  clears := fun _ hw => (by cases hw)

/-! ### The lead record -/

/-- The write of the lead record of a set. -/
def leadWrite (set : FileSet) (sector : Nat) : Write where
  sector := sector
  content := set.lead.record set.currentRange set.cycleCount

/-- The lead record is written to the sector that it has or to a free one, or there is none. -/
theorem lead_cases (s : Staging) (set : FileSet) (sector : Option Nat) :
    (∃ l claimed, (s.lead set sector).1 = some l ∧
      Account s sector.toList claimed [] [leadWrite set l] (s.lead set sector).2 [l] ∧
      (s.lead set sector).2.shortages = s.shortages ∧
      (s.lead set sector).2.unplaced = s.unplaced) ∨
    (sector = none ∧ s.inUse.lowestFree = none ∧
      s.lead set none = (none, { s with shortages := s.shortages ++ [.noSpaceForSet set.name] })) :=
  by
  unfold lead
  cases sector with
  | some l =>
      refine Or.inl ⟨l, [], rfl, ⟨SectorMap.taken_nil _, ?_, rfl, ?_, ?_, ?_⟩, rfl, rfl⟩
      · exact (List.append_nil _).symm
      · exact List.Perm.refl _
      · exact List.Subperm.refl _
      · intro w hw
        cases hw
  | none =>
      cases hfree : s.inUse.lowestFree with
      | some l =>
          refine Or.inl ⟨l, [l], rfl, ⟨?_, ?_, rfl, ?_, ?_, ?_⟩, rfl, rfl⟩
          · exact SectorMap.taken_set (SectorMap.lowestFree_eq_some hfree)
          · exact (List.append_nil _).symm
          · exact List.Perm.refl _
          · exact List.Subperm.refl _
          · intro w hw
            cases hw
      | none => exact Or.inr ⟨rfl, rfl, rfl⟩

/-! ### The records of cycles -/

@[simp] theorem length_recording (file : FileId) (item : MainItem) (sectors : List Nat) :
    (recording file item sectors).length = min sectors.length item.sectorsNeeded := by
  simp [recording, item.length_records]

theorem sectors_recording {file : FileId} {item : MainItem} {sectors : List Nat}
    (h : sectors.length = item.sectorsNeeded) :
    (recording file item sectors).map Write.sector = sectors := by
  unfold recording
  rw [List.map_map]
  have hle : sectors.length ≤ item.records.length := Nat.le_of_eq (h.trans item.length_records.symm)
  exact List.map_fst_zip hle

/-- The records of a cycle are written, each to a sector of its own, or there was no space. -/
inductive Settled (s : Staging) (file : FileId) (item : MainItem) (t : Staging)
    (kept freed : List Nat) (writes : List Write) : Prop
  | placed (hlength : kept.length = item.sectorsNeeded)
      (hwrites : writes = clearing freed ++ recording file item kept)
      (hshortages : t.shortages = s.shortages) (hunplaced : t.unplaced = s.unplaced)
  | short (hlength : kept.length < item.sectorsNeeded) (hwrites : writes = [])
      (hshortages : t.shortages = s.shortages ++ [.noSpaceForFile file])
      (hunplaced : t.unplaced = s.unplaced ++ [file])

/-- The account of one cycle. -/
theorem account_cycle (s : Staging) (file : FileId) (item : MainItem) (sectors : List Nat) :
    ∃ claimed freed writes,
      Account s sectors claimed freed writes (s.cycle file item sectors).2
        (s.cycle file item sectors).1 ∧
      Settled s file item (s.cycle file item sectors).2 (s.cycle file item sectors).1 freed
        writes := by
  unfold cycle
  obtain ⟨htaken, hle, -⟩ := SectorMap.taken_claim (item.sectorsNeeded - sectors.length) s.inUse
  generalize hclaim : SectorMap.claim (item.sectorsNeeded - sectors.length) s.inUse = result at *
  obtain ⟨extra, inUse⟩ := result
  dsimp only at htaken hle ⊢
  have hlength : (sectors ++ extra).length = sectors.length + extra.length := List.length_append
  -- a cycle keeps what it has when that is too little, and gives up what is too much
  by_cases hshort : (sectors ++ extra).length < item.sectorsNeeded
  · rw [if_pos hshort]
    exact ⟨extra, [], [], account_taking sectors htaken rfl rfl, .short hshort rfl rfl rfl⟩
  · rw [if_neg hshort]
    have hkept : ((sectors ++ extra).take item.sectorsNeeded).length = item.sectorsNeeded := by
      rw [List.length_take]
      omega
    refine ⟨extra, (sectors ++ extra).drop item.sectorsNeeded, _, ⟨htaken, rfl, ?_, ?_, ?_, ?_⟩,
      .placed hkept rfl rfl rfl⟩
    · exact List.append_assoc _ _ _
    · rw [List.take_append_drop]
    · rw [List.map_append, sectors_clearing, sectors_recording hkept]
      exact List.perm_append_comm.subperm
    · intro w hw
      exact List.mem_append_left _ hw

/-- What staging the records of several cycles comes to: each of them is placed on sectors of its
own, or is among those for which there was no space, and then there is a complaint. -/
structure Placed (s : Staging) (items : List (FileId × MainItem)) (t : Staging)
    (placed : List (FileId × List Nat)) (writes : List Write) : Prop where
  files : placed.map Prod.fst = items.map Prod.fst
  records : ∀ entry ∈ items, entry.1 ∈ t.unplaced ∨
    ∃ sectors, (entry.1, sectors) ∈ placed ∧ sectors.length = entry.2.sectorsNeeded ∧
      ∀ w ∈ recording entry.1 entry.2 sectors, w ∈ writes
  complaints : ∃ files, t.unplaced = s.unplaced ++ files ∧
    (∀ file ∈ files, file ∈ items.map Prod.fst) ∧
    t.shortages = s.shortages ++ files.map Failure.noSpaceForFile

theorem placed_nil (s : Staging) : Placed s [] s [] [] := by
  refine ⟨rfl, fun entry hentry => (by cases hentry), [], ?_, fun file hfile => (by cases hfile), ?_⟩
  · exact (List.append_nil _).symm
  · exact (List.append_nil _).symm

/-- Staging the records of one cycle more, before the others. -/
theorem Placed.cons {s t u : Staging} {file : FileId} {item : MainItem} {kept freed : List Nat}
    {items : List (FileId × MainItem)} {placed : List (FileId × List Nat)}
    {writes₁ writes₂ : List Write} (hsettled : Settled s file item t kept freed writes₁)
    (hplaced : Placed t items u placed writes₂) :
    Placed s ((file, item) :: items) u ((file, kept) :: placed) (writes₁ ++ writes₂) := by
  obtain ⟨hfiles, hrecords, files, hunplaced, hsub, hshortages⟩ := hplaced
  have hlater : ∀ entry ∈ items, entry.1 ∈ u.unplaced ∨
      ∃ sectors, (entry.1, sectors) ∈ (file, kept) :: placed ∧
        sectors.length = entry.2.sectorsNeeded ∧
        ∀ w ∈ recording entry.1 entry.2 sectors, w ∈ writes₁ ++ writes₂ := by
    intro entry hentry
    rcases hrecords entry hentry with hun | ⟨sectors, hin, hlength, hw⟩
    · exact Or.inl hun
    · exact Or.inr ⟨sectors, List.mem_cons_of_mem _ hin, hlength,
        fun w hmem => List.mem_append_right _ (hw w hmem)⟩
  cases hsettled with
  | placed hlength hwrites hshortages₁ hunplaced₁ =>
      refine ⟨congrArg (file :: ·) hfiles, List.forall_mem_cons.2 ⟨Or.inr ?_, hlater⟩, files, ?_,
        fun other hother => List.mem_cons_of_mem _ (hsub other hother), ?_⟩
      · refine ⟨kept, List.mem_cons_self, hlength, fun w hw => ?_⟩
        rw [hwrites]
        exact List.mem_append_left _ (List.mem_append_right _ hw)
      · rw [hunplaced, hunplaced₁]
      · rw [hshortages, hshortages₁]
  | short hlength hwrites hshortages₁ hunplaced₁ =>
      refine ⟨congrArg (file :: ·) hfiles, List.forall_mem_cons.2 ⟨Or.inl ?_, hlater⟩, file :: files,
        ?_, List.forall_mem_cons.2 ⟨List.mem_cons_self, ?_⟩, ?_⟩
      · rw [hunplaced, hunplaced₁]
        exact List.mem_append_left _ (List.mem_append_right _ List.mem_cons_self)
      · rw [hunplaced, hunplaced₁, List.append_assoc]
        rfl
      · exact fun other hother => List.mem_cons_of_mem _ (hsub other hother)
      · rw [hshortages, hshortages₁, List.append_assoc]
        rfl

/-- The account of several cycles. -/
theorem account_cycles (s : Staging) (p : Placement) (items : List (FileId × MainItem)) :
    ∃ claimed freed writes,
      Account s (items.flatMap fun entry => p.sectorsOf entry.1) claimed freed writes
        (s.cycles p items).2 ((s.cycles p items).1.flatMap Prod.snd) ∧
      Placed s items (s.cycles p items).2 (s.cycles p items).1 writes := by
  induction items generalizing s with
  | nil => exact ⟨[], [], [], account_taking [] (SectorMap.taken_nil _) rfl rfl, placed_nil s⟩
  | cons entry items ih =>
      obtain ⟨file, item⟩ := entry
      obtain ⟨claimed₁, freed₁, writes₁, haccount₁, hsettled⟩ :=
        account_cycle s file item (p.sectorsOf file)
      obtain ⟨claimed₂, freed₂, writes₂, haccount₂, hplaced⟩ :=
        ih (s.cycle file item (p.sectorsOf file)).2
      rw [cycles]
      exact ⟨claimed₁ ++ claimed₂, freed₁ ++ freed₂, writes₁ ++ writes₂, haccount₁.append haccount₂,
        hplaced.cons hsettled⟩

/-- With no free sector and none of their own, cycles get none. -/
theorem cycles_of_full {s : Staging} {p : Placement} {items : List (FileId × MainItem)}
    (hfull : s.inUse.lowestFree = none) (hnone : ∀ entry ∈ items, p.sectorsOf entry.1 = []) :
    ∀ entry ∈ (s.cycles p items).1, entry.2 = [] := by
  induction items generalizing s with
  | nil =>
      intro entry hentry
      cases hentry
  | cons entry items ih =>
      obtain ⟨file, item⟩ := entry
      have hcycle : (s.cycle file item []).1 = [] ∧
          (s.cycle file item []).2.inUse.lowestFree = none := by
        unfold cycle
        rw [SectorMap.claim_of_full hfull]
        have hneeded : 0 < item.sectorsNeeded :=
          Nat.lt_of_lt_of_le Nat.two_pos (Nat.le_add_right 2 _)
        simp [hneeded, hfull]
      rw [cycles, hnone _ List.mem_cons_self]
      intro other hother
      rcases List.mem_cons.1 hother with rfl | hother
      · exact hcycle.1
      · exact ih hcycle.2 (fun e he => hnone e (List.mem_cons_of_mem _ he)) other hother

/-! ### What every staged write has in common -/

section Writes

variable {P : Write → Prop} {s : Staging}

theorem forall_free (h : ∀ w ∈ s.writes, P w) {sectors : List Nat}
    (hclear : ∀ w ∈ clearing sectors, P w) : ∀ w ∈ (s.free sectors).writes, P w := by
  intro w hw
  rw [(account_free s sectors).writes_eq] at hw
  rcases List.mem_append.1 hw with hw | hw
  · exact h w hw
  · exact hclear w hw

theorem forall_lead (h : ∀ w ∈ s.writes, P w) {set : FileSet} (hlead : ∀ l, P (leadWrite set l))
    (sector : Option Nat) : ∀ w ∈ (s.lead set sector).2.writes, P w := by
  intro w hw
  rcases s.lead_cases set sector with ⟨l, claimed, -, haccount, -, -⟩ | ⟨rfl, -, hfull⟩
  · rw [haccount.writes_eq] at hw
    rcases List.mem_append.1 hw with hw | hw
    · exact h w hw
    · rw [List.mem_singleton.1 hw]
      exact hlead l
  · rw [hfull] at hw
    exact h w hw

theorem forall_cycle (h : ∀ w ∈ s.writes, P w) (hclear : ∀ sectors, ∀ w ∈ clearing sectors, P w)
    {file : FileId} {item : MainItem} (hrecord : ∀ kept, ∀ w ∈ recording file item kept, P w)
    (sectors : List Nat) : ∀ w ∈ (s.cycle file item sectors).2.writes, P w := by
  obtain ⟨claimed, freed, writes, haccount, hsettled⟩ := s.account_cycle file item sectors
  intro w hw
  rw [haccount.writes_eq] at hw
  rcases List.mem_append.1 hw with hw | hw
  · exact h w hw
  · cases hsettled with
    | placed _ hwrites _ _ =>
        rw [hwrites] at hw
        rcases List.mem_append.1 hw with hw | hw
        · exact hclear freed w hw
        · exact hrecord _ w hw
    | short _ hwrites _ _ =>
        rw [hwrites] at hw
        cases hw

theorem forall_cycles (h : ∀ w ∈ s.writes, P w) (hclear : ∀ sectors, ∀ w ∈ clearing sectors, P w)
    {items : List (FileId × MainItem)}
    (hrecord : ∀ entry ∈ items, ∀ kept, ∀ w ∈ recording entry.1 entry.2 kept, P w)
    (p : Placement) : ∀ w ∈ (s.cycles p items).2.writes, P w := by
  induction items generalizing s with
  | nil => exact h
  | cons entry items ih =>
      refine ih (forall_cycle h hclear (hrecord entry List.mem_cons_self) (p.sectorsOf entry.1)) ?_
      exact fun other hother => hrecord other (List.mem_cons_of_mem _ hother)

end Writes

end Staging

/-! ### The sectors of a set, by its cycles -/

namespace Placement

theorem sectorsOf_of_mem {p : Placement} (h : (p.cycles.map Prod.fst).Nodup) {file : FileId}
    {sectors : List Nat} (hin : (file, sectors) ∈ p.cycles) : p.sectorsOf file = sectors := by
  rw [sectorsOf, (lookup_eq_some_iff h).2 hin, Option.getD_some]

theorem flatMap_sectorsOf {p : Placement} (h : (p.cycles.map Prod.fst).Nodup) :
    (p.cycles.map Prod.fst).flatMap p.sectorsOf = p.cycles.flatMap Prod.snd := by
  rw [List.flatMap_map]
  refine List.flatMap_congr ?_
  rintro ⟨file, sectors⟩ hin
  exact sectorsOf_of_mem h hin

/-- The sectors of some cycles and those of all others are the sectors of all cycles. -/
theorem perm_sectorsOf {p : Placement} (h : (p.cycles.map Prod.fst).Nodup) {files : List FileId}
    (hfiles : files.Nodup) :
    ((p.cycles.filter fun entry => !decide (entry.1 ∈ files)).flatMap Prod.snd ++
      files.flatMap p.sectorsOf).Perm (p.cycles.flatMap Prod.snd) := by
  have hown : files.flatMap p.sectorsOf =
      (files.flatMap fun file => p.cycles.filter fun entry => entry.1 = file).flatMap Prod.snd := by
    rw [List.flatMap_assoc]
    refine List.flatMap_congr ?_
    intro file _
    rw [filter_key_eq h, sectorsOf]
    cases p.cycles.lookup file <;> simp
  have hsome := (perm_flatMap_filter Prod.fst p.cycles hfiles).flatMap_right Prod.snd
  have hsplit := (List.filter_append_perm (fun entry : FileId × List Nat => decide (entry.1 ∈ files))
    p.cycles).flatMap_right Prod.snd
  rw [List.flatMap_append] at hsplit
  rw [hown]
  exact (hsome.append_left _).trans (List.perm_append_comm.trans hsplit)

end Placement

/-! ### A whole file set -/

namespace Store

/-- What staging a file set comes to, from `before` to `after`: `p` are the sectors that the set had,
and `p'` those that it has then. -/
structure SetStaged (s : Store) (set : FileSet) (p : Placement) (before after : Staging)
    (p' : Placement) (writes : List Write) : Prop where
  files : p'.cycles.map Prod.fst = set.files
  /-- The lead record is written, or there was no space and there is a complaint. -/
  lead : (∃ l, p'.lead = some l ∧ Staging.leadWrite set l ∈ writes) ∨
    (p'.lead = none ∧ p.lead = none)
  /-- Without a sector for the lead record there are none for the cycles. -/
  headless : p'.lead = none → (∀ file ∈ set.files, p.sectorsOf file = []) →
    ∀ entry ∈ p'.cycles, entry.2 = []
  records : ∀ c ∈ set.cycles, c.file ∈ after.unplaced ∨
    ∃ sectors, (c.file, sectors) ∈ p'.cycles ∧ sectors.length = (s.shown c).sectorsNeeded ∧
      ∀ w ∈ Staging.recording c.file (s.shown c) sectors, w ∈ writes
  complaints : ∃ files shortages, after.unplaced = before.unplaced ++ files ∧
    after.shortages = before.shortages ++ shortages ∧ (∀ file ∈ files, file ∈ set.files) ∧
    (∀ f ∈ shortages, f.kind = .mediumIo) ∧
    (shortages = [] → files = [] ∧ p'.lead ≠ none)

/-- What staging a file set comes to if there is space for all of it: its lead item has a sector and
each cycle has one for each of its records. -/
structure SetPlaced (s : Store) (set : FileSet) (p' : Placement) (writes : List Write) : Prop where
  files : p'.cycles.map Prod.fst = set.files
  lead : ∃ l, p'.lead = some l ∧ Staging.leadWrite set l ∈ writes
  records : ∀ c ∈ set.cycles, ∃ sectors, (c.file, sectors) ∈ p'.cycles ∧
    sectors.length = (s.shown c).sectorsNeeded ∧
    ∀ w ∈ Staging.recording c.file (s.shown c) sectors, w ∈ writes

theorem SetPlaced.mono {s : Store} {set : FileSet} {p' : Placement} {writes more : List Write}
    (h : SetPlaced s set p' writes) (hsub : ∀ w ∈ writes, w ∈ more) : SetPlaced s set p' more := by
  obtain ⟨hfiles, ⟨l, hl, hlead⟩, hrecords⟩ := h
  refine ⟨hfiles, ⟨l, hl, hsub _ hlead⟩, ?_⟩
  intro c hc
  obtain ⟨sectors, hin, hlength, hw⟩ := hrecords c hc
  exact ⟨sectors, hin, hlength, fun w hmem => hsub w (hw w hmem)⟩

/-- Without a complaint there was space for all of a set. -/
theorem SetStaged.placed {s : Store} {set : FileSet} {p p' : Placement} {before after : Staging}
    {writes : List Write} (h : SetStaged s set p before after p' writes)
    (hshortages : after.shortages = []) :
    before.shortages = [] ∧
      (before.unplaced = [] → after.unplaced = [] ∧ SetPlaced s set p' writes) := by
  obtain ⟨files, shortages, hafter, hall, -, -, hnone⟩ := h.complaints
  rw [hall] at hshortages
  obtain ⟨hbefore, hshort⟩ := List.append_eq_nil_iff.1 hshortages
  obtain ⟨hfiles, hlead⟩ := hnone hshort
  refine ⟨hbefore, ?_⟩
  intro hunplaced
  have hempty : after.unplaced = [] := by rw [hafter, hunplaced, hfiles]; rfl
  refine ⟨hempty, h.files, ?_, ?_⟩
  · rcases h.lead with hplaced | ⟨hbad, -⟩
    · exact hplaced
    · exact absurd hbad hlead
  · intro c hc
    rcases h.records c hc with hbad | hplaced
    · rw [hempty] at hbad
      cases hbad
    · exact hplaced

/-- What a set is staged to, more may be staged besides. -/
theorem SetStaged.mono {s : Store} {set : FileSet} {p p' : Placement} {before after : Staging}
    {writes more : List Write} (h : SetStaged s set p before after p' writes)
    (hsub : ∀ w ∈ writes, w ∈ more) : SetStaged s set p before after p' more := by
  refine { h with lead := ?_, records := fun c hc => ?_ }
  · exact h.lead.imp_left fun ⟨l, hl, hw⟩ => ⟨l, hl, hsub _ hw⟩
  · exact (h.records c hc).imp_right fun ⟨sectors, hin, hlength, hw⟩ =>
      ⟨sectors, hin, hlength, fun w hmem => hsub w (hw w hmem)⟩

/-- The cycles of a set as they are staged. -/
def items (s : Store) (set : FileSet) : List (FileId × MainItem) :=
  set.cycles.map fun c => (c.file, s.shown c)

theorem map_fst_items (s : Store) (set : FileSet) : (s.items set).map Prod.fst = set.files := by
  rw [items, List.map_map]
  rfl

theorem flatMap_items (s : Store) (set : FileSet) (p : Placement) :
    (s.items set).flatMap (fun entry => p.sectorsOf entry.1) = set.files.flatMap p.sectorsOf := by
  rw [items, FileSet.files, List.flatMap_map, List.flatMap_map]

theorem mem_items {s : Store} {set : FileSet} {c : FileCycle} (h : c ∈ set.cycles) :
    (c.file, s.shown c) ∈ s.items set := List.mem_map_of_mem h

/-- A complaint about a cycle is an error of the medium. -/
theorem kind_of_mem_noSpaceForFile {files : List FileId} {f : Failure}
    (h : f ∈ files.map Failure.noSpaceForFile) : f.kind = .mediumIo := by
  obtain ⟨file, -, rfl⟩ := List.mem_map.1 h
  rfl

section Staged

variable {s : Store} {set : FileSet} {p : Placement} {before after : Staging}
  {placed : List (FileId × List Nat)} {writes : List Write}

/-- A set whose lead record has a sector is staged with its cycles. -/
theorem setStaged_of_lead {between : Staging} {l : Nat}
    (hshortages : between.shortages = before.shortages)
    (hunplaced : between.unplaced = before.unplaced)
    (hplaced : Staging.Placed between (s.items set) after placed writes) :
    SetStaged s set p before after ⟨some l, placed⟩ ([Staging.leadWrite set l] ++ writes) := by
  obtain ⟨hfiles, hrecords, files, hun, hsub, hshort⟩ := hplaced
  rw [map_fst_items] at hfiles hsub
  refine ⟨hfiles, Or.inl ⟨l, rfl, List.mem_cons_self⟩, fun hnone => (by cases hnone), ?_, files,
    files.map Failure.noSpaceForFile, hunplaced ▸ hun, hshortages ▸ hshort, hsub,
    fun f hf => kind_of_mem_noSpaceForFile hf, ?_⟩
  · intro c hc
    exact (hrecords _ (mem_items hc)).imp_right fun ⟨sectors, hin, hlength, hw⟩ =>
      ⟨sectors, hin, hlength, fun w hmem => List.mem_cons_of_mem _ (hw w hmem)⟩
  · intro hnone
    exact ⟨List.map_eq_nil_iff.1 hnone, Option.some_ne_none l⟩

/-- A set for whose lead record there is no space is staged with its cycles and with a complaint. -/
theorem setStaged_of_full (hlead : p.lead = none)
    (hheadless : (∀ file ∈ set.files, p.sectorsOf file = []) → ∀ entry ∈ placed, entry.2 = [])
    (hplaced : Staging.Placed
      { before with shortages := before.shortages ++ [.noSpaceForSet set.name] } (s.items set) after
      placed writes) : SetStaged s set p before after ⟨none, placed⟩ writes := by
  obtain ⟨hfiles, hrecords, files, hun, hsub, hshort⟩ := hplaced
  rw [map_fst_items] at hfiles hsub
  refine ⟨hfiles, Or.inr ⟨rfl, hlead⟩, fun _ => hheadless, fun c hc => hrecords _ (mem_items hc), files,
    .noSpaceForSet set.name :: files.map Failure.noSpaceForFile, hun, ?_, hsub,
    List.forall_mem_cons.2 ⟨rfl, fun f hf => kind_of_mem_noSpaceForFile hf⟩,
    fun hnone => (by cases hnone)⟩
  rw [hshort, List.append_assoc]
  rfl

end Staged

/-- The account of a file set. -/
theorem account_stageSet (s : Store) (staging : Staging) (set : FileSet) (p : Placement) :
    ∃ claimed freed writes,
      Staging.Account staging (p.lead.toList ++ set.files.flatMap p.sectorsOf) claimed freed writes
        (s.stageSet staging set p).2 (s.stageSet staging set p).1.sectors ∧
      SetStaged s set p staging (s.stageSet staging set p).2 (s.stageSet staging set p).1 writes := by
  have hstageSet : s.stageSet staging set p =
      (⟨(staging.lead set p.lead).1, ((staging.lead set p.lead).2.cycles p (s.items set)).1⟩,
        ((staging.lead set p.lead).2.cycles p (s.items set)).2) := rfl
  rw [hstageSet, ← s.flatMap_items]
  rcases Staging.lead_cases staging set p.lead with
    ⟨l, claimed₁, hlead, haccount₁, hshortages, hunplaced⟩ | ⟨hlead, hfull, hstaged⟩
  · obtain ⟨claimed₂, freed₂, writes₂, haccount₂, hplaced⟩ :=
      Staging.account_cycles (staging.lead set p.lead).2 p (s.items set)
    rw [hlead]
    exact ⟨claimed₁ ++ claimed₂, [] ++ freed₂, [Staging.leadWrite set l] ++ writes₂,
      haccount₁.append haccount₂, setStaged_of_lead hshortages hunplaced hplaced⟩
  · rw [hlead, hstaged]
    obtain ⟨claimed, freed, writes, haccount, hplaced⟩ :=
      Staging.account_cycles { staging with
        shortages := staging.shortages ++ [.noSpaceForSet set.name] } p (s.items set)
    obtain ⟨htaken, hfreed, hwrites, hperm, hsubperm, hclears⟩ := haccount
    refine ⟨claimed, freed, writes, ⟨htaken, hfreed, hwrites, hperm, hsubperm, hclears⟩,
      setStaged_of_full hlead (fun hnone => Staging.cycles_of_full hfull ?_) hplaced⟩
    intro entry hentry
    obtain ⟨c, hc, rfl⟩ := List.mem_map.1 hentry
    exact hnone c.file (List.mem_map_of_mem hc)

/-- The sectors of cycles of a set that are not among the given ones. -/
def goneSectors (p : Placement) (files : List FileId) : List Nat :=
  (p.cycles.filter fun entry => !decide (entry.1 ∈ files)).flatMap Prod.snd

/-- **The account of a file set that is recorded anew.**  It had the sectors of `p`. -/
theorem account_stage (s : Store) {set : FileSet} (hset : set.files.Nodup)
    (hplaced : ((s.placement set.name).cycles.map Prod.fst).Nodup) :
    ∃ p' claimed freed writes, (s.stage set.name (some set)).1 = some p' ∧
      Staging.Account { inUse := s.inUse } (s.placement set.name).sectors claimed freed writes
        (s.stage set.name (some set)).2 p'.sectors ∧
      SetStaged s set (s.placement set.name) { inUse := s.inUse } (s.stage set.name (some set)).2 p'
        writes := by
  have hgone : ((s.placement set.name).cycles.filter fun entry =>
      !((some set).any fun set => set.cycles.any fun c => c.file = entry.1)).flatMap Prod.snd =
      goneSectors (s.placement set.name) set.files := by
    unfold goneSectors
    congr 1
    refine List.filter_congr ?_
    intro entry _
    rw [Bool.eq_iff_iff]
    simp [FileSet.files]
  unfold stage
  dsimp only
  rw [hgone]
  obtain ⟨claimed, freed, writes, haccount, hstaged⟩ := account_stageSet s
    (Staging.free { inUse := s.inUse } (goneSectors (s.placement set.name) set.files)) set
    (s.placement set.name)
  have hfree := Staging.account_free { inUse := s.inUse }
    (goneSectors (s.placement set.name) set.files)
  obtain ⟨htaken, hfreed, hwrites, hperm, hsubperm, hclears⟩ := hfree.append haccount
  refine ⟨_, _, _, _, rfl, ⟨htaken, hfreed, hwrites, hperm.trans ?_, hsubperm, hclears⟩, ?_⟩
  · refine List.Perm.append_right _ ?_
    rw [Placement.sectors]
    refine List.Perm.trans ?_ ((Placement.perm_sectorsOf hplaced hset).append_left _)
    exact List.perm_append_comm_assoc _ _ _
  · obtain ⟨hfiles, hlead, hheadless, hrecords, hcomplaints⟩ :=
      hstaged.mono fun w hw => List.mem_append_right _ hw
    exact ⟨hfiles, hlead, hheadless, hrecords, hcomplaints⟩

/-- The account of a file set that is gone: all its sectors are cleared. -/
theorem account_stage_none (s : Store) (name : SetName) :
    ∃ freed writes, (s.stage name none).1 = none ∧
      Staging.Account { inUse := s.inUse } (s.placement name).sectors [] freed writes
        (s.stage name none).2 [] ∧
      (s.stage name none).2.shortages = [] ∧ (s.stage name none).2.unplaced = [] := by
  have hgone : ((s.placement name).cycles.filter fun entry =>
      !((none : Option FileSet).any fun set => set.cycles.any fun c => c.file = entry.1)) =
      (s.placement name).cycles := by simp
  unfold stage
  dsimp only
  rw [hgone]
  have hcycles := Staging.account_free { inUse := s.inUse }
    ((s.placement name).cycles.flatMap Prod.snd)
  have hlead := Staging.account_free
    (Staging.free { inUse := s.inUse } ((s.placement name).cycles.flatMap Prod.snd))
    (s.placement name).lead.toList
  obtain ⟨htaken, hfreed, hwrites, hperm, hsubperm, hclears⟩ := hcycles.append hlead
  refine ⟨_, _, rfl, ⟨htaken, hfreed, hwrites, hperm.trans ?_, hsubperm, hclears⟩, rfl, rfl⟩
  exact List.Perm.append_right _ List.perm_append_comm

/-- **What staging complains about**: the cycles for which there is no space are those of the set,
and each complaint is an error of the medium. -/
theorem complaints_stage (s : Store) (name : SetName) (set? : Option FileSet) :
    (∀ file ∈ (s.stage name set?).2.unplaced, ∃ set ∈ set?, file ∈ set.files) ∧
      ∀ f ∈ (s.stage name set?).2.shortages, f.kind = .mediumIo := by
  cases set? with
  | none => exact ⟨nofun, nofun⟩
  | some set =>
      unfold stage
      dsimp only
      obtain ⟨claimed, freed, writes, -, hstaged⟩ := account_stageSet s
        (Staging.free { inUse := s.inUse } (((s.placement name).cycles.filter fun entry =>
          !((some set).any fun set => set.cycles.any fun c => c.file = entry.1)).flatMap Prod.snd))
        set (s.placement name)
      obtain ⟨files, shortages, hunplaced, hshortages, hsub, hkind, -⟩ := hstaged.complaints
      rw [hunplaced, hshortages]
      exact ⟨fun file hfile => ⟨set, rfl, hsub file hfile⟩, hkind⟩

end Store

end FileDirectory
