/-
**What the roster lists after notes.**

A note about a cycle and a client changes what the roster lists for that client of that cycle, and
nothing else: the cycle is listed once it is noted as assigned, and no longer once it is noted as
released.  The roster has one entry a client, none of them empty, and lists each cycle once.

Main definitions:

* `FileDirectory.Roster.Sound` — one entry a client, none empty, each with its cycles in order;
* `FileDirectory.Roster.about` — the notes about one cycle.

Main results:

* `FileDirectory.Roster.mem_filesOf_assigned`, `FileDirectory.Roster.mem_filesOf_released` — what is
  listed after a note;
* `FileDirectory.Roster.mem_filesOf_about` — notes about other cycles do not matter;
* `FileDirectory.Roster.Sound.noteAll` — notes keep the roster sound.
-/

import FileDirectory.Proofs.Keyed
import FileDirectory.Roster

set_option autoImplicit false

namespace FileDirectory.Roster

/-! ### Identifiers in order -/

theorem mem_insertFile {file other : FileId} {files : List FileId} :
    other ∈ insertFile file files ↔ other = file ∨ other ∈ files := by
  induction files with
  | nil => simp [insertFile]
  | cons f files ih =>
      unfold insertFile
      split
      · exact List.mem_cons
      · split
        · rename_i heq
          rw [heq, List.mem_cons]
          exact ⟨Or.inr, fun h => h.elim Or.inl id⟩
        · rw [List.mem_cons, ih, List.mem_cons]
          exact or_left_comm

theorem insertFile_ne_nil (file : FileId) (files : List FileId) : insertFile file files ≠ [] := by
  intro hnil
  have hin : file ∈ insertFile file files := mem_insertFile.2 (Or.inl rfl)
  rw [hnil] at hin
  cases hin

/-- Cycles in the order of their identifiers. -/
def Ascending (files : List FileId) : Prop := files.Pairwise fun a b => a.number < b.number

theorem ascending_insertFile (file : FileId) {files : List FileId} (h : Ascending files) :
    Ascending (insertFile file files) := by
  induction files with
  | nil => exact List.pairwise_singleton _ _
  | cons f files ih =>
      obtain ⟨hhead, htail⟩ := List.pairwise_cons.1 h
      unfold insertFile
      split
      · rename_i hlt
        refine List.pairwise_cons.2 ⟨?_, h⟩
        intro other hother
        rcases List.mem_cons.1 hother with rfl | hother
        · exact hlt
        · exact Nat.lt_trans hlt (hhead other hother)
      · rename_i hle
        split
        · exact h
        · rename_i hne
          refine List.pairwise_cons.2 ⟨?_, ih htail⟩
          intro other hother
          rcases mem_insertFile.1 hother with rfl | hother
          · -- identifiers with the same number are the same
            have hnumber : f.number ≠ other.number := fun heq =>
              hne (congrArg FileId.mk heq).symm
            omega
          · exact hhead other hother

/-! ### Entries -/

theorem mem_clients_enter {client other : Client} {file : FileId}
    {entries : List (Client × List FileId)} :
    other ∈ (enter client file entries).map Prod.fst ↔
      other = client ∨ other ∈ entries.map Prod.fst := by
  induction entries with
  | nil => simp [enter]
  | cons entry entries ih =>
      obtain ⟨first, files⟩ := entry
      unfold enter
      split
      · rename_i heq
        simp [heq]
      · rw [List.map_cons, List.mem_cons, ih, List.map_cons, List.mem_cons]
        exact or_left_comm

theorem lookup_enter_self (client : Client) (file : FileId)
    (entries : List (Client × List FileId)) :
    (enter client file entries).lookup client =
      some (insertFile file ((entries.lookup client).getD [])) := by
  induction entries with
  | nil => simp [enter, insertFile]
  | cons entry entries ih =>
      obtain ⟨first, files⟩ := entry
      by_cases heq : client = first
      · subst heq
        simp [enter]
      · have hne : (client == first) = false := by simpa using heq
        simp [enter, heq, List.lookup_cons, hne, ih]

theorem lookup_enter_of_ne {client other : Client} (h : other ≠ client) (file : FileId)
    (entries : List (Client × List FileId)) :
    (enter client file entries).lookup other = entries.lookup other := by
  have hother : (other == client) = false := by simpa using h
  induction entries with
  | nil => simp [enter, List.lookup_cons, hother]
  | cons entry entries ih =>
      obtain ⟨first, files⟩ := entry
      by_cases heq : client = first
      · subst heq
        simp [enter, List.lookup_cons, hother]
      · simp [enter, heq, List.lookup_cons, ih]

theorem clients_strike_sublist (client : Client) (file : FileId)
    (entries : List (Client × List FileId)) :
    ((strike client file entries).map Prod.fst).Sublist (entries.map Prod.fst) := by
  induction entries with
  | nil => exact List.Sublist.refl _
  | cons entry entries ih =>
      obtain ⟨first, files⟩ := entry
      unfold strike
      split
      · split
        · exact List.sublist_cons_self _ _
        · exact List.Sublist.refl _
      · exact ih.cons_cons first

theorem lookup_strike_self (client : Client) (file : FileId)
    {entries : List (Client × List FileId)} (hnodup : (entries.map Prod.fst).Nodup) :
    ((strike client file entries).lookup client).getD [] =
      ((entries.lookup client).getD []).filter fun listed => listed ≠ file := by
  induction entries with
  | nil => rfl
  | cons entry entries ih =>
      obtain ⟨first, files⟩ := entry
      obtain ⟨hfirst, hrest⟩ := List.nodup_cons.1 hnodup
      by_cases heq : client = first
      · subst heq
        rw [List.lookup_cons_self, Option.getD_some]
        unfold strike
        rw [if_pos rfl]
        split
        · rename_i hnil
          rw [lookup_eq_none hfirst, hnil]
          rfl
        · rw [List.lookup_cons_self, Option.getD_some]
      · have hne : (client == first) = false := by simpa using heq
        unfold strike
        rw [if_neg heq, List.lookup_cons, hne, List.lookup_cons, hne]
        exact ih hrest

theorem lookup_strike_of_ne {client other : Client} (h : other ≠ client) (file : FileId)
    (entries : List (Client × List FileId)) :
    (strike client file entries).lookup other = entries.lookup other := by
  have hother : (other == client) = false := by simpa using h
  induction entries with
  | nil => rfl
  | cons entry entries ih =>
      obtain ⟨first, files⟩ := entry
      by_cases heq : client = first
      · subst heq
        unfold strike
        rw [if_pos rfl]
        split <;> simp [List.lookup_cons, hother]
      · simp [strike, heq, List.lookup_cons, ih]

/-! ### Sound rosters -/

/-- One entry a client, none of them empty, each with its cycles in the order of their
identifiers. -/
structure Sound (r : Roster) : Prop where
  clients : (r.entries.map Prod.fst).Nodup
  nonempty : ∀ entry ∈ r.entries, entry.2 ≠ []
  ascending : ∀ entry ∈ r.entries, Ascending entry.2

theorem sound_empty : Sound {} where
  clients := List.nodup_nil
  nonempty := by intro entry hentry; cases hentry
  ascending := by intro entry hentry; cases hentry

/-- No cycle is listed twice. -/
theorem Sound.nodup_filesOf {r : Roster} (h : r.Sound) (client : Client) :
    (r.filesOf client).Nodup := by
  unfold filesOf
  cases hlookup : r.entries.lookup client with
  | none => exact List.nodup_nil
  | some files =>
      refine (h.ascending _ ((lookup_eq_some_iff h.clients).1 hlookup)).imp ?_
      rintro a b hlt rfl
      exact Nat.lt_irrefl _ hlt

/-- What holds of every entry and of those with a cycle more holds after a cycle is entered. -/
theorem forall_enter {P : List FileId → Prop} {client : Client} {file : FileId}
    {entries : List (Client × List FileId)} (h : ∀ entry ∈ entries, P entry.2)
    (hfirst : P [file]) (hmore : ∀ files, P files → P (insertFile file files)) :
    ∀ entry ∈ enter client file entries, P entry.2 := by
  induction entries with
  | nil =>
      intro entry hentry
      obtain rfl := List.mem_singleton.1 hentry
      exact hfirst
  | cons first entries ih =>
      obtain ⟨hhead, htail⟩ := List.forall_mem_cons.1 h
      obtain ⟨other, files⟩ := first
      unfold enter
      split
      · exact List.forall_mem_cons.2 ⟨hmore files hhead, htail⟩
      · exact List.forall_mem_cons.2 ⟨hhead, ih htail⟩

/-- What holds of every entry and of those with a cycle less that are not empty holds after a cycle is
struck. -/
theorem forall_strike {P : List FileId → Prop} {client : Client} {file : FileId}
    {entries : List (Client × List FileId)} (h : ∀ entry ∈ entries, P entry.2)
    (hless : ∀ files, P files → (files.filter fun listed => listed ≠ file) ≠ [] →
      P (files.filter fun listed => listed ≠ file)) :
    ∀ entry ∈ strike client file entries, P entry.2 := by
  induction entries with
  | nil => exact h
  | cons first entries ih =>
      obtain ⟨hhead, htail⟩ := List.forall_mem_cons.1 h
      obtain ⟨other, files⟩ := first
      have hleft := hless files hhead
      unfold strike
      split
      · generalize (files.filter fun listed => listed ≠ file) = left at hleft ⊢
        cases left with
        | nil => exact htail
        | cons f fs => exact List.forall_mem_cons.2 ⟨hleft (List.cons_ne_nil _ _), htail⟩
      · exact List.forall_mem_cons.2 ⟨hhead, ih htail⟩

theorem nodup_clients_enter {client : Client} {file : FileId}
    {entries : List (Client × List FileId)} (h : (entries.map Prod.fst).Nodup) :
    ((enter client file entries).map Prod.fst).Nodup := by
  induction entries with
  | nil => exact List.nodup_singleton _
  | cons first entries ih =>
      obtain ⟨other, files⟩ := first
      obtain ⟨hother, hrest⟩ := List.nodup_cons.1 h
      unfold enter
      split
      · exact h
      · rename_i hne
        refine List.nodup_cons.2 ⟨?_, ih hrest⟩
        intro hin
        rcases mem_clients_enter.1 hin with heq | hin
        · exact hne heq.symm
        · exact hother hin

/-- A note keeps the roster sound. -/
theorem Sound.note {r : Roster} (h : r.Sound) (n : Note) : (r.note n).Sound := by
  cases n with
  | assigned client file =>
      exact ⟨nodup_clients_enter h.clients,
        forall_enter (P := (· ≠ [])) h.nonempty (List.cons_ne_nil _ _)
          fun files _ => insertFile_ne_nil file files,
        forall_enter h.ascending (List.pairwise_singleton _ _) fun _ => ascending_insertFile file⟩
  | released client file =>
      exact ⟨h.clients.sublist (clients_strike_sublist client file r.entries),
        forall_strike (P := (· ≠ [])) h.nonempty fun _ _ hne => hne,
        forall_strike h.ascending fun _ hfiles _ => List.Pairwise.filter _ hfiles⟩

/-- **Notes keep the roster sound.** -/
theorem Sound.noteAll {r : Roster} (h : r.Sound) (notes : List Note) : (r.noteAll notes).Sound := by
  induction notes generalizing r with
  | nil => exact h
  | cons n notes ih => exact ih (h.note n)

/-! ### What is listed -/

/-- The cycle that a note is about. -/
def Note.file : Note → FileId
  | .assigned _ file | .released _ file => file

/-- The notes about one cycle. -/
def about (file : FileId) (notes : List Note) : List Note := notes.filter fun n => n.file = file

section Listed

variable {r : Roster} {client other : Client} {file : FileId}

/-- A cycle is listed once it is noted as assigned. -/
theorem mem_filesOf_assigned {listed : FileId} :
    listed ∈ (r.note (.assigned client file)).filesOf other ↔
      listed ∈ r.filesOf other ∨ (other = client ∧ listed = file) := by
  unfold filesOf note
  by_cases heq : other = client
  · subst heq
    rw [lookup_enter_self, Option.getD_some, mem_insertFile]
    simp [or_comm]
  · rw [lookup_enter_of_ne heq]
    simp [heq]

/-- A cycle is no longer listed once it is noted as released. -/
theorem mem_filesOf_released (h : r.Sound) {listed : FileId} :
    listed ∈ (r.note (.released client file)).filesOf other ↔
      listed ∈ r.filesOf other ∧ ¬(other = client ∧ listed = file) := by
  unfold filesOf note
  by_cases heq : other = client
  · subst heq
    rw [lookup_strike_self _ _ h.clients, List.mem_filter]
    simp
  · rw [lookup_strike_of_ne heq]
    simp [heq]

/-- Of all that is noted as released, nothing is listed any more. -/
theorem mem_filesOf_noteAll_released (h : r.Sound) {notes : List Note}
    (hnotes : ∀ n ∈ notes, ∃ c f, n = .released c f) :
    file ∈ (r.noteAll notes).filesOf client ↔
      file ∈ r.filesOf client ∧ .released client file ∉ notes := by
  induction notes generalizing r with
  | nil => simp
  | cons n notes ih =>
      obtain ⟨hn, hrest⟩ := List.forall_mem_cons.1 hnotes
      obtain ⟨c, f, rfl⟩ := hn
      rw [noteAll_cons, ih (h.note _) hrest, mem_filesOf_released h, List.mem_cons, not_or,
        and_assoc, Note.released.injEq]

/-- A note about another cycle does not matter. -/
theorem mem_filesOf_note_of_ne (h : r.Sound) {n : Note} (hn : n.file ≠ file) :
    file ∈ (r.note n).filesOf client ↔ file ∈ r.filesOf client := by
  cases n with
  | assigned c f =>
      have hne : file ≠ f := fun heq => hn heq.symm
      simp [mem_filesOf_assigned, hne]
  | released c f =>
      have hne : file ≠ f := fun heq => hn heq.symm
      simp [mem_filesOf_released h, hne]

/-- What is listed of a cycle depends only on what was listed of it. -/
theorem mem_filesOf_note_congr {s : Roster} (hr : r.Sound) (hs : s.Sound) (n : Note)
    (h : ∀ client, file ∈ r.filesOf client ↔ file ∈ s.filesOf client) (client : Client) :
    file ∈ (r.note n).filesOf client ↔ file ∈ (s.note n).filesOf client := by
  cases n with
  | assigned c f => rw [mem_filesOf_assigned, mem_filesOf_assigned, h]
  | released c f => rw [mem_filesOf_released hr, mem_filesOf_released hs, h]

/-- **Notes about other cycles do not matter.** -/
theorem mem_filesOf_about (h : r.Sound) (notes : List Note) (client : Client) :
    file ∈ (r.noteAll notes).filesOf client ↔
      file ∈ (r.noteAll (about file notes)).filesOf client := by
  have hgeneral : ∀ r s : Roster, r.Sound → s.Sound →
      (∀ client, file ∈ r.filesOf client ↔ file ∈ s.filesOf client) →
      (file ∈ (r.noteAll notes).filesOf client ↔
        file ∈ (s.noteAll (about file notes)).filesOf client) := by
    induction notes with
    | nil =>
        intro r s _ _ hsame
        exact hsame client
    | cons n notes ih =>
        intro r s hr hs hsame
        by_cases hn : n.file = file
        · rw [about, List.filter_cons_of_pos (by simpa using hn)]
          exact ih _ _ (hr.note n) (hs.note n) (mem_filesOf_note_congr hr hs n hsame)
        · rw [about, List.filter_cons_of_neg (by simpa using hn)]
          exact ih _ _ (hr.note n) hs fun c =>
            (mem_filesOf_note_of_ne hr hn).trans (hsame c)
  exact hgeneral r r h h fun _ => Iff.rfl

end Listed

end FileDirectory.Roster
