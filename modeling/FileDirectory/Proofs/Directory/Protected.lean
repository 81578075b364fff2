/-
**Keys and the guard protect a file set.**

While nobody presents the write key of a file set, the set goes on existing under the same keys, with
every live cycle that it has, without a new one, and guarded if it is guarded.  While nobody presents
its read key, no client comes to have more of any of its cycles, until the set is gone.  While it is
guarded, no live cycle of it is deleted, whatever keys are presented.

Main definitions:

* `FileDirectory.Directory.Course` — what a directory comes to while only what is allowed is asked;
* `FileDirectory.FileSet.Withstands`, `FileDirectory.FileSet.Withholds` — what the write key and the
  read key keep of a file set;
* `FileDirectory.Directory.Protected` — a directory all of whose sets are protected so.

Main results:

* `FileDirectory.Directory.Course.induction` — what holds along a course;
* `FileDirectory.Directory.Performed.withstands`, `FileDirectory.Directory.Performed.withholds`,
  `FileDirectory.Directory.Performed.alive` — what one operation leaves of a file set;
* `FileDirectory.Directory.Course.withstands`, `FileDirectory.Directory.Course.withholds`,
  `FileDirectory.Directory.Course.alive` — what a course leaves of one;
* `FileDirectory.Directory.protected_of_reached` — every set is protected in every state.
-/

import FileDirectory.Proofs.Catalog.Life
import FileDirectory.Proofs.Catalog.Revised
import FileDirectory.Proofs.Directory.Bookkeeping

set_option autoImplicit false

namespace FileDirectory

/-! ### What is protected -/

namespace FileSet

/-- A set has a live cycle of an identifier. -/
def Alive (set : FileSet) (file : FileId) : Prop :=
  ∃ c ∈ set.cycles, c.file = file ∧ c.item.state = .live

/-- What the write key keeps of a set. -/
structure Withstands (set after : FileSet) : Prop where
  name : after.name = set.name
  readKey : after.lead.readKey = set.lead.readKey
  writeKey : after.lead.writeKey = set.lead.writeKey
  guarded : set.lead.guarded = true → after.lead.guarded = true
  /-- No cycle is added. -/
  files : ∀ file ∈ after.files, file ∈ set.files
  /-- Every live cycle stays live. -/
  live : ∀ file, set.Alive file → after.Alive file

theorem Withstands.refl (set : FileSet) : set.Withstands set where
  name := rfl
  readKey := rfl
  writeKey := rfl
  guarded := id
  files := fun _ => id
  live := fun _ => id

theorem Withstands.trans {a b c : FileSet} (h : a.Withstands b) (h' : b.Withstands c) :
    a.Withstands c where
  name := h'.name.trans h.name
  readKey := h'.readKey.trans h.readKey
  writeKey := h'.writeKey.trans h.writeKey
  guarded := fun hguarded => h'.guarded (h.guarded hguarded)
  files := fun file hfile => h.files file (h'.files file hfile)
  live := fun file hlive => h'.live file (h.live file hlive)

/-- What the read key keeps of a set. -/
structure Withholds (set after : FileSet) : Prop where
  readKey : after.lead.readKey = set.lead.readKey
  /-- Every cycle was there, and nobody has more of it. -/
  held : ∀ a ∈ after.cycles, ∃ b ∈ set.cycles, b.file = a.file ∧
    ∀ client, a.held client ≤ b.held client

theorem Withholds.refl (set : FileSet) : set.Withholds set where
  readKey := rfl
  held := fun a ha => ⟨a, ha, rfl, fun _ => Nat.le_refl _⟩

theorem Withholds.trans {a b c : FileSet} (h : a.Withholds b) (h' : b.Withholds c) :
    a.Withholds c where
  readKey := h'.readKey.trans h.readKey
  held := by
    intro later hlater
    obtain ⟨between, hbetween, hfile, hle⟩ := h'.held later hlater
    obtain ⟨first, hfirst, hfile', hle'⟩ := h.held between hbetween
    exact ⟨first, hfirst, hfile'.trans hfile, fun client => Nat.le_trans (hle client) (hle' client)⟩

end FileSet

/-! ### One cycle -/

namespace Catalog

variable {call : Call} {r : Request} {file : FileId} {before after : Option FileCycle}
  {notes : List Roster.Note}

/-- Only who creates or assigns a cycle has more of it afterwards. -/
theorem Turn.heldOf_le (h : Turn call r file before after notes) (hb : ∀ b ∈ before, b.Tallied)
    (hcreates : r.creates = none) (hassigns : r.isAssign = false) (client : Client) :
    heldOf after client ≤ heldOf before client := by
  cases h with
  | idle => exact Nat.le_refl _
  | create hr =>
      rw [hcreates] at hr
      cases hr
  | assign hr =>
      rw [hassigns] at hr
      cases hr
  | catalog => exact Nat.le_refl _
  | abort => exact Nat.zero_le _
  | doom => exact Nat.le_refl _
  | delete => exact Nat.zero_le _
  | @release cycle share => exact heldOf_settled_le (hb cycle rfl) share client
  | grow => exact Nat.le_refl _
  | write => exact Nat.le_refl _
  | guard => exact Nat.le_refl _

end Catalog

namespace Directory

open Catalog

variable {call : Call} {r : Request} {d d' : Directory} {set after : FileSet} {file : FileId}

/-! ### One operation -/

/-- A set stays as it is, or the request is about it and its keys and its guard permit it. -/
theorem Performed.mem_sets (h : Performed call r d d') (hd : d.catalog.Indexed)
    (hset : set ∈ d.catalog.sets) :
    set ∈ d'.catalog.sets ∨ r.Concerns set ∧ r.Permitted set := by
  cases h with
  | refused => exact Or.inl hset
  | performed change hasked =>
      rw [catalog_perform_ok]
      by_cases htouched : change.touched = set.name
      · exact Or.inr (hasked.of_touched hd hset htouched)
      · exact Or.inl ((hasked.mem_sets_iff hd (Ne.symm htouched)).2 hset)

theorem Performed.lead_eq (h : Performed call r d d') (hd : d.catalog.Indexed)
    (hset : set ∈ d.catalog.sets) (hafter : after ∈ d'.catalog.sets) (hname : after.name = set.name) :
    after.lead.readKey = set.lead.readKey ∧ after.lead.writeKey = set.lead.writeKey ∧
      (after.lead.guarded = set.lead.guarded ∨ r.guard? = some after.lead.guarded) := by
  cases h with
  | refused =>
      obtain rfl := hd.ordered.eq_of_name_eq hafter hset hname
      exact ⟨rfl, rfl, Or.inl rfl⟩
  | performed change hasked =>
      rw [catalog_perform_ok] at hafter
      exact hasked.lead_eq hd hset hafter hname

/-- A cycle stays in the set of its name. -/
theorem Performed.mem_files (h : Performed call r d d') (hd : d.catalog.Indexed)
    (hafter : after ∈ d'.catalog.sets) (hfile : file ∈ after.files)
    (hthere : d.catalog.cycle? file ≠ none) :
    ∃ set ∈ d.catalog.sets, set.name = after.name ∧ file ∈ set.files := by
  cases h with
  | refused => exact ⟨after, hafter, rfl, hfile⟩
  | performed change hasked =>
      have hindexed := (hasked.steps hd).indexed hd
      rw [catalog_perform_ok] at hafter
      rw [← mem_filesOf hd.ordered]
      refine (hasked.mem_filesOf hd ?_).resolve_right hthere
      rwa [filesOf_of_mem hindexed.ordered hafter]

/-- Where no cycle is created, every cycle of a set was in the set of that name. -/
theorem Performed.mem_cycles (h : Performed call r d d') (hd : d.catalog.Indexed)
    (hcreates : r.creates = none) (hafter : after ∈ d'.catalog.sets) {a : FileCycle}
    (ha : a ∈ after.cycles) :
    ∃ set ∈ d.catalog.sets, set.name = after.name ∧ ∃ b ∈ set.cycles, b.file = a.file ∧
      ∃ notes, Turn call r a.file (some b) (some a) notes := by
  obtain ⟨notes, hturn⟩ := h.turn hd a.file
  rw [cycle?_of_mem (h.indexed hd) hafter ha] at hturn
  obtain ⟨b, hb, -⟩ := hturn.keeps hcreates a rfl
  rw [Option.mem_def] at hb
  obtain ⟨set, hset, hname, hfile⟩ := h.mem_files hd hafter (List.mem_map_of_mem ha)
    (by rw [hb]; exact Option.some_ne_none b)
  obtain ⟨other, hother, hfile⟩ := List.mem_map.1 hfile
  have hfound := cycle?_of_mem hd hset hother
  rw [hfile, hb] at hfound
  obtain rfl := Option.some.inj hfound
  exact ⟨set, hset, hname, b, hother, hfile, notes, hb ▸ hturn⟩

/-- Where no cycle is created, no set is new. -/
theorem Performed.exists_before (h : Performed call r d d') (hd : d.catalog.Indexed)
    (hcreates : r.creates = none) (hafter : after ∈ d'.catalog.sets) :
    ∃ set ∈ d.catalog.sets, set.name = after.name := by
  obtain ⟨a, ha⟩ := List.exists_mem_of_ne_nil _ ((h.indexed hd).nonempty after hafter)
  obtain ⟨set, hset, hname, -⟩ := h.mem_cycles hd hcreates hafter ha
  exact ⟨set, hset, hname⟩

/-- **A live cycle stays live** unless its set permits that it is deleted. -/
theorem Performed.alive (h : Performed call r d d') (hd : d.catalog.Indexed) (hbooks : d.Bookkept)
    (hset : set ∈ d.catalog.sets) (hlive : set.Alive file) :
    (∃ after ∈ d'.catalog.sets, after.name = set.name ∧ after.Alive file) ∨
      r.isDelete = true ∧ r.Permitted set := by
  rcases h.mem_sets hd hset with hstays | ⟨-, hpermitted⟩
  · exact Or.inl ⟨set, hstays, rfl, hlive⟩
  by_cases hdelete : r.isDelete = true
  · exact Or.inr ⟨hdelete, hpermitted⟩
  obtain ⟨b, hb, rfl, hstate⟩ := hlive
  have hfound := cycle?_of_mem hd hset hb
  obtain ⟨notes, hturn⟩ := h.turn hd b.file
  rw [hfound] at hturn
  have hpasses := hturn.passes fun e he => by
    obtain rfl := Option.some.inj he
    exact hbooks.cycles set hset _ hb
  obtain ⟨hstays, hgoes⟩ := hpasses.fromLive b rfl hstate
  obtain ⟨a, ha⟩ := Option.ne_none_iff_exists'.1 fun hnone => hdelete (hgoes hnone).1
  have halive : a.item.state = .live :=
    (hstays a ha).resolve_right fun hdoomed => hdelete hdoomed.2.1
  obtain ⟨after, hafter, hin, hfile⟩ := (cycle?_eq_some_iff (h.indexed hd)).1 ha
  obtain ⟨old, hold, hname, hfileOld⟩ := h.mem_files hd hafter
    (List.mem_map.2 ⟨a, hin, hfile⟩) (by rw [hfound]; exact Option.some_ne_none b)
  obtain rfl := hd.apart old hold set hset b.file hfileOld (List.mem_map_of_mem hb)
  exact Or.inl ⟨after, hafter, hname.symm, a, hin, hfile, halive⟩

/-- **What one operation leaves of a set** whose write key is not presented. -/
theorem Performed.withstands (h : Performed call r d d') (hd : d.catalog.Indexed)
    (hbooks : d.Bookkept) (hset : set ∈ d.catalog.sets) (hkey : set.lead.writeKey ≠ "")
    (hlive : ∃ file, set.Alive file) (hr : ¬r.Presents .write set.lead.writeKey) :
    ∃ after ∈ d'.catalog.sets, set.Withstands after := by
  rcases h.mem_sets hd hset with hstays | ⟨-, hpermitted⟩
  · exact ⟨set, hstays, .refl set⟩
  have hlocked : ¬r.Unlocks .write set.lead.writeKey := fun hopen => hopen.elim hkey hr
  have hcreates : r.creates = none := by
    by_contra hcreates
    exact hlocked (hpermitted.creates hcreates).2
  have halive : ∀ file, set.Alive file →
      ∃ after ∈ d'.catalog.sets, after.name = set.name ∧ after.Alive file := fun file hfile =>
    (h.alive hd hbooks hset hfile).resolve_right fun hdelete =>
      hlocked (hpermitted.deletes hdelete.1).1
  obtain ⟨first, hfirst⟩ := hlive
  obtain ⟨after, hafter, hname, -⟩ := halive first hfirst
  obtain ⟨hread, hwrite, hguard⟩ := h.lead_eq hd hset hafter hname
  refine ⟨after, hafter, hname, hread, hwrite, ?_, ?_, ?_⟩
  · intro hguarded
    rcases hguard with hsame | hset
    · exact hsame.trans hguarded
    · by_contra hoff
      rw [Bool.eq_false_iff.2 hoff] at hset
      exact hlocked (hpermitted.unguards hset)
  · intro file hfile
    obtain ⟨a, ha, rfl⟩ := List.mem_map.1 hfile
    obtain ⟨old, hold, holdName, b, hb, hfile, -⟩ := h.mem_cycles hd hcreates hafter ha
    obtain rfl := hd.ordered.eq_of_name_eq hold hset (holdName.trans hname)
    exact hfile ▸ List.mem_map_of_mem hb
  · intro file hfile
    obtain ⟨other, hother, hotherName, hlive⟩ := halive file hfile
    obtain rfl := (h.indexed hd).ordered.eq_of_name_eq hother hafter (hotherName.trans hname.symm)
    exact hlive

/-- **What one operation leaves of a set** whose read key is not presented. -/
theorem Performed.withholds (h : Performed call r d d') (hd : d.catalog.Indexed)
    (hbooks : d.Bookkept) (hset : set ∈ d.catalog.sets) (hkey : set.lead.readKey ≠ "")
    (hr : ¬r.Presents .read set.lead.readKey) (hafter : after ∈ d'.catalog.sets)
    (hname : after.name = set.name) : set.Withholds after := by
  rcases h.mem_sets hd hset with hstays | ⟨-, hpermitted⟩
  · obtain rfl := (h.indexed hd).ordered.eq_of_name_eq hafter hstays hname
    exact .refl after
  have hlocked : ¬r.Unlocks .read set.lead.readKey := fun hopen => hopen.elim hkey hr
  have hcreates : r.creates = none := by
    by_contra hcreates
    exact hlocked (hpermitted.creates hcreates).1
  have hassigns : r.isAssign = false :=
    Bool.eq_false_iff.2 fun hassigns => hlocked (hpermitted.assigns hassigns)
  refine ⟨(h.lead_eq hd hset hafter hname).1, fun a ha => ?_⟩
  obtain ⟨old, hold, holdName, b, hb, hfile, notes, hturn⟩ := h.mem_cycles hd hcreates hafter ha
  obtain rfl := hd.ordered.eq_of_name_eq hold hset (holdName.trans hname)
  refine ⟨b, hb, hfile, fun client => hturn.heldOf_le ?_ hcreates hassigns client⟩
  intro e he
  obtain rfl := Option.some.inj he
  exact (hbooks.cycles _ hset _ hb).toTallied

/-! ### Courses -/

/-- What a directory comes to while everybody asks only for what is allowed in the state that it is in
by then.  Who releases everything releases one cycle after another, and others may come between. -/
inductive Course (allowed : Directory → Request → Prop) (d : Directory) : Directory → Prop
  | start : Course allowed d d
  | handle {e : Directory} (h : Course allowed d e) (call : Call) (r : Request) (hr : allowed e r) :
      Course allowed d (e.handle call r).2
  | release {e : Directory} (h : Course allowed d e) (call : Call) (file : FileId) :
      Course allowed d (e.release call file .all).2

/-- **What holds along a course**: what every operation preserves that is allowed, and every release
of cycles in turn. -/
theorem Course.induction {allowed : Directory → Request → Prop} {P : Directory → Prop} {e : Directory}
    (hindexed : d.catalog.Indexed) (hbooks : d.Bookkept) (hd : P d)
    (hstep : ∀ call r e e', e.catalog.Indexed → e.Bookkept → allowed e r → P e →
      Performed call r e e' → P e')
    (hrelease : ∀ call e e', e.catalog.Indexed → e.Bookkept → P e →
      Performed call .releaseAll e e' → P e')
    (h : Course allowed d e) : e.catalog.Indexed ∧ e.Bookkept ∧ P e := by
  have hreleased : ∀ (call : Call) e looks file, (e.catalog.Indexed ∧ e.Bookkept ∧ P e) →
      (e.release (call.after looks) file .all).2.catalog.Indexed ∧
        (e.release (call.after looks) file .all).2.Bookkept ∧
        P (e.release (call.after looks) file .all).2 := by
    rintro call e looks file ⟨he, hbooks, hpe⟩
    have hperformed : Performed call .releaseAll e (e.release (call.after looks) file .all).2 :=
      performed_release rfl looks
    exact ⟨hperformed.indexed he, hperformed.bookkept he hbooks,
      hrelease call _ _ he hbooks hpe hperformed⟩
  induction h with
  | start => exact ⟨hindexed, hbooks, hd⟩
  | @handle e _ call r hr ih =>
      by_cases hall : r = .releaseAll
      · subst hall
        exact releaseAll_induction (P := fun e => e.catalog.Indexed ∧ e.Bookkept ∧ P e)
          (hreleased call) ih
      · obtain ⟨he, hbooks, hpe⟩ := ih
        have hperformed : Performed call r e (e.handle call r).2 := performed_handle hall
        exact ⟨hperformed.indexed he, hperformed.bookkept he hbooks,
          hstep call r _ _ he hbooks hr hpe hperformed⟩
  | release _ call file ih =>
      have hnext := hreleased call _ 0 file ih
      rwa [Call.after_zero] at hnext

/-- Releasing everything presents no key. -/
theorem not_presents_releaseAll {role : KeyRole} {key : String} :
    ¬Request.releaseAll.Presents role key := by
  rintro ⟨text, htext, -⟩
  cases role <;> cases htext

section Along

variable {set : FileSet} {file : FileId} {e : Directory} (hindexed : d.catalog.Indexed)
  (hbooks : d.Bookkept) (hset : set ∈ d.catalog.sets)

include hindexed hbooks hset

/-- **A set withstands a course along which nobody presents its write key.** -/
theorem Course.withstands (hkey : set.lead.writeKey ≠ "") (hlive : set.Alive file)
    (h : Course (fun _ r => ¬r.Presents .write set.lead.writeKey) d e) :
    ∃ after ∈ e.catalog.sets, set.Withstands after := by
  have hstep : ∀ call r e e', e.catalog.Indexed → e.Bookkept →
      ¬r.Presents .write set.lead.writeKey → (∃ after ∈ e.catalog.sets, set.Withstands after) →
      Performed call r e e' → ∃ after ∈ e'.catalog.sets, set.Withstands after := by
    rintro call r e e' he hbooks hr ⟨after, hafter, hwithstands⟩ hperformed
    rw [← hwithstands.writeKey] at hkey hr
    obtain ⟨later, hlater, hnext⟩ := hperformed.withstands he hbooks hafter hkey
      ⟨file, hwithstands.live file hlive⟩ hr
    exact ⟨later, hlater, hwithstands.trans hnext⟩
  exact (h.induction hindexed hbooks ⟨set, hset, .refl set⟩ hstep
    fun call e e' he hbooks => hstep call _ e e' he hbooks not_presents_releaseAll).2.2

/-- **A set withholds its cycles along a course** on which it exists and nobody presents its read
key. -/
theorem Course.withholds (hkey : set.lead.readKey ≠ "")
    (h : Course (fun e r => ¬r.Presents .read set.lead.readKey ∧
      ∃ s ∈ e.catalog.sets, s.name = set.name) d e) :
    ∀ after ∈ e.catalog.sets, after.name = set.name → set.Withholds after := by
  have hstep : ∀ call r e e', e.catalog.Indexed → e.Bookkept →
      ¬r.Presents .read set.lead.readKey →
      ((∃ s ∈ e.catalog.sets, s.name = set.name) ∨ r.creates = none) →
      (∀ after ∈ e.catalog.sets, after.name = set.name → set.Withholds after) →
      Performed call r e e' →
      ∀ after ∈ e'.catalog.sets, after.name = set.name → set.Withholds after := by
    intro call r e e' he hbooks hr hthere hall hperformed after hafter hafterName
    -- the set was there before: nothing that a release leaves is new
    obtain ⟨s, hs, hname⟩ : ∃ s ∈ e.catalog.sets, s.name = set.name := by
      refine hthere.elim id fun hcreates => ?_
      obtain ⟨s, hs, hname⟩ := hperformed.exists_before he hcreates hafter
      exact ⟨s, hs, hname.trans hafterName⟩
    have hwithholds := hall s hs hname
    rw [← hwithholds.readKey] at hkey hr
    exact hwithholds.trans (hperformed.withholds he hbooks hs hkey hr hafter
      (hafterName.trans hname.symm))
  refine (h.induction hindexed hbooks ?_
    (fun call r e e' he hbooks hr => hstep call r e e' he hbooks hr.1 (Or.inl hr.2))
    fun call e e' he hbooks => hstep call _ e e' he hbooks not_presents_releaseAll (Or.inr rfl)).2.2
  intro after hafter hname
  obtain rfl := hindexed.ordered.eq_of_name_eq hafter hset hname
  exact .refl after

/-- **A live cycle stays live along a course** on which its set is guarded. -/
theorem Course.alive (hlive : set.Alive file)
    (h : Course (fun e _ => ∃ s ∈ e.catalog.sets, s.name = set.name ∧ s.lead.guarded = true) d e) :
    ∃ after ∈ e.catalog.sets, after.name = set.name ∧ after.Alive file := by
  refine (h.induction
    (P := fun e => ∃ after ∈ e.catalog.sets, after.name = set.name ∧ after.Alive file)
    hindexed hbooks ⟨set, hset, rfl, hlive⟩ ?_ ?_).2.2
  · rintro call r e e' he hbooks ⟨s, hs, hname, hguarded⟩ ⟨after, hafter, hafterName, halive⟩
      hperformed
    obtain rfl := he.ordered.eq_of_name_eq hs hafter (hname.trans hafterName.symm)
    rcases hperformed.alive he hbooks hs halive with ⟨later, hlater, hlaterName, hstays⟩ |
      ⟨hdelete, hpermitted⟩
    · exact ⟨later, hlater, hlaterName.trans hname, hstays⟩
    · rw [(hpermitted.deletes hdelete).2] at hguarded
      cases hguarded
  · rintro call e e' he hbooks ⟨after, hafter, hafterName, halive⟩ hperformed
    rcases hperformed.alive he hbooks hafter halive with ⟨later, hlater, hlaterName, hstays⟩ |
      ⟨hdelete, -⟩
    · exact ⟨later, hlater, hlaterName.trans hafterName, hstays⟩
    · cases hdelete

end Along

/-! ### Protection -/

/-- Keys and the guard protect the file sets of a directory. -/
structure Protected (d : Directory) : Prop where
  /-- The write key, while the set has a live cycle. -/
  write : ∀ set ∈ d.catalog.sets, set.lead.writeKey ≠ "" → (∃ file, set.Alive file) →
    ∀ e, Course (fun _ r => ¬r.Presents .write set.lead.writeKey) d e →
      ∃ after ∈ e.catalog.sets, set.Withstands after
  /-- The read key, as long as the set exists. -/
  read : ∀ set ∈ d.catalog.sets, set.lead.readKey ≠ "" →
    ∀ e, Course (fun e r => ¬r.Presents .read set.lead.readKey ∧
        ∃ s ∈ e.catalog.sets, s.name = set.name) d e →
      ∀ after ∈ e.catalog.sets, after.name = set.name → set.Withholds after
  /-- The guard, as long as the set is guarded. -/
  guard : ∀ set ∈ d.catalog.sets, ∀ file, set.Alive file →
    ∀ e, Course (fun e _ => ∃ s ∈ e.catalog.sets, s.name = set.name ∧ s.lead.guarded = true) d e →
      ∃ after ∈ e.catalog.sets, after.name = set.name ∧ after.Alive file

/-- **Keys and the guard protect every file set in every state** of a directory that was made empty or
recovered from any image, whoever asks for whatever else. -/
theorem protected_of_reached {config : Configuration}
    (h : Reached (fun d => Made config d ∨ Recovered config d) d) : d.Protected := by
  obtain ⟨hindexed, hbooks⟩ := h.books
  exact {
    write := fun set hset hkey ⟨file, hlive⟩ e hcourse =>
      hcourse.withstands hindexed hbooks hset hkey hlive
    read := fun set hset hkey e hcourse => hcourse.withholds hindexed hbooks hset hkey
    guard := fun set hset file hlive e hcourse => hcourse.alive hindexed hbooks hset hlive }

/-- A directory with one tape file, which has both keys and is guarded. -/
def locked : Directory :=
  (empty { packTracks := 4 }).after [
    (⟨⟨1, "RUN1", "USER"⟩, 5, none⟩, .createTape ⟨"Q", "T", .absolute 1, "look", "alter", 0⟩),
    (⟨⟨1, "RUN1", "USER"⟩, 6, none⟩, .catalog ⟨1⟩),
    (⟨⟨1, "RUN2", "USER"⟩, 7, none⟩, .setGuard "Q" "T" true "")]

theorem protected_of_reached_locked :
    (∃ set ∈ locked.catalog.sets, set.lead.writeKey = "ALTER" ∧ set.lead.readKey = "LOOK" ∧
        set.lead.guarded = true ∧ ∃ c ∈ set.cycles, c.file = ⟨1⟩ ∧ c.item.state = .live) ∧
      locked.Protected :=
  ⟨by decide +kernel, protected_of_reached (reached_after (.start (Or.inl (Or.inl rfl))) _)⟩

end Directory

end FileDirectory
