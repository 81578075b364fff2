/-
**What a sector is a record of.**

A few fields of a sector decide whether it is free, what it is a record of, and whether it can be made
out at all: the code of the record, the file type of a lead or identity record, and the number of
extents of an allocation record.

Main definitions:

* `FileDirectory.Sector.Reads` — what a sector holds, by the code in it;
* `FileDirectory.Sector.Decodes` — a sector is free or can be made out;
* `FileDirectory.Sector.record?`, `FileDirectory.Sector.tag?` — the record in a sector, and what it is
  a record of;
* `FileDirectory.Sector.live`, `FileDirectory.Sector.sequence`, `FileDirectory.Sector.extents` — what
  identity and allocation records say.

Main results:

* `FileDirectory.Sector.ofSector_eq_ok` — what is made out of a sector is what it holds;
* `FileDirectory.Sector.exists_ofSector_iff` — which sectors decode;
* `FileDirectory.Sector.Decodes.tag?_eq` — a sector that decodes is told by its first words.
-/

import FileDirectory.Proofs.Catalog.Step
import FileDirectory.Proofs.Record.RoundTrip
import FileDirectory.Recovery

set_option autoImplicit false

namespace FileDirectory

namespace Record

/-- The cycle that a record identifies as live. -/
def liveKey? : Record → Option CycleKey
  | .main item => if item.state = .live then some item.key else none
  | _ => none

/-- Only an identity record does. -/
theorem liveKey?_eq_some {r : Record} {key : CycleKey} :
    r.liveKey? = some key ↔ ∃ item, r = .main item ∧ item.key = key ∧ item.state = .live := by
  cases r with
  | main item => by_cases hlive : item.state = .live <;> simp [liveKey?, hlive]
  | _ => simp [liveKey?]

@[simp] theorem leadCode_eq : leadCode = 1 := rfl

@[simp] theorem identityCode_eq : identityCode = 2 := rfl

@[simp] theorem backupCode_eq : backupCode = 3 := rfl

@[simp] theorem allocationCode_eq : allocationCode = 4 := rfl

end Record

namespace Sector

open Record

/-! ### What a sector holds -/

/-- What a sector holds, by the code in it. -/
inductive Reads (s : Sector) : Option Record → Prop
  | free (hcode : s.code = 0) : Reads s none
  | lead {item : LeadItem} (hcode : s.code = leadCode) (hitem : LeadItem.ofSector s = .ok item) :
      Reads s (some (.lead item))
  | main {item : MainItem} (hcode : s.code = identityCode)
      (hitem : MainItem.ofSector s = .ok item) : Reads s (some (.main item))
  | backup (hcode : s.code = backupCode) :
      Reads s (some (.backup (keyOf s) (BackupInfo.ofSector s)))
  | allocation (hcode : s.code = allocationCode) (hcount : s[5].get .h1 ≤ extentsPerRecord) :
      Reads s (some (.allocation (keyOf s) s.sequence s.extents))

variable {s : Sector}

theorem extentsAt_eq_ok {es : List Extent} :
    extentsAt s = .ok es ↔ s[5].get .h1 ≤ extentsPerRecord ∧ s.extents = es := by
  unfold extentsAt
  dsimp only
  split
  · simp; omega
  · simp; omega

theorem length_extentsOf_le (count : Nat) (ws : List Word) :
    (extentsOf count ws).length ≤ count := by
  fun_induction extentsOf count ws with
  | case1 count file pack tracks ws ih => exact Nat.succ_le_succ ih
  | case2 => exact Nat.zero_le _

theorem length_extents_le (h : s[5].get .h1 ≤ extentsPerRecord) :
    s.extents.length ≤ extentsPerRecord :=
  Nat.le_trans (length_extentsOf_le _ _) h

/-- The record in a sector by its code. -/
theorem ofSector_eq (s : Sector) : Record.ofSector s = match s.code with
    | 0 => .ok none
    | 1 => (LeadItem.ofSector s).map fun item => some (.lead item)
    | 2 => (MainItem.ofSector s).map fun item => some (.main item)
    | 3 => .ok (some (.backup (keyOf s) (BackupInfo.ofSector s)))
    | 4 => (extentsAt s).map fun extents => some (.allocation (keyOf s) s.sequence extents)
    | code => .error (.recordType code) := rfl

/-- **What is made out of a sector is what it holds.** -/
theorem ofSector_eq_ok {record : Option Record} :
    Record.ofSector s = .ok record ↔ s.Reads record := by
  rw [ofSector_eq]
  constructor
  · intro h
    split at h <;> rename_i hcode
    · cases h
      exact .free hcode
    · obtain ⟨item, hitem, rfl⟩ := map_eq_ok.1 h
      exact .lead hcode hitem
    · obtain ⟨item, hitem, rfl⟩ := map_eq_ok.1 h
      exact .main hcode hitem
    · cases h
      exact .backup hcode
    · obtain ⟨es, hextents, rfl⟩ := map_eq_ok.1 h
      obtain ⟨hcount, rfl⟩ := extentsAt_eq_ok.1 hextents
      exact .allocation hcode hcount
    · cases h
  · intro h
    cases h with
    | free hcode => rw [hcode]; rfl
    | lead hcode hitem => rw [hcode, hitem]; rfl
    | main hcode hitem => rw [hcode, hitem]; rfl
    | backup hcode => rw [hcode]; rfl
    | allocation hcode hcount => rw [hcode, extentsAt_eq_ok.2 ⟨hcount, rfl⟩]; rfl

/-! ### Which sectors decode -/

/-- A sector is free or holds a record that can be made out: there are three file types, and a record
has room for seven extents. -/
structure Decodes (s : Sector) : Prop where
  code : s.code ≤ allocationCode
  fileType : s.code = leadCode ∨ s.code = identityCode → s[9].get .s1 ≤ 2
  count : s.code = allocationCode → s[5].get .h1 ≤ extentsPerRecord

theorem isSome_ofCode?_iff {n : Nat} : (FileType.ofCode? n).isSome ↔ n ≤ 2 := by
  match n with
  | 0 | 1 | 2 => simp [FileType.ofCode?]
  | n + 3 => simp [FileType.ofCode?]

theorem exists_lead_iff : (∃ item, LeadItem.ofSector s = .ok item) ↔ s[9].get .s1 ≤ 2 := by
  rw [← isSome_ofCode?_iff, LeadItem.ofSector]
  cases FileType.ofCode? (s[9].get .s1) <;> simp

theorem exists_main_iff : (∃ item, MainItem.ofSector s = .ok item) ↔ s[9].get .s1 ≤ 2 := by
  rw [← isSome_ofCode?_iff, MainItem.ofSector]
  cases FileType.ofCode? (s[9].get .s1) <;> simp

/-- **Which sectors decode.** -/
theorem exists_ofSector_iff : (∃ record, Record.ofSector s = .ok record) ↔ s.Decodes := by
  constructor
  · rintro ⟨record, h⟩
    cases ofSector_eq_ok.1 h with
    | free hcode => exact ⟨by simp [hcode], by simp [hcode], by simp [hcode]⟩
    | lead hcode hitem =>
        exact ⟨by simp [hcode], fun _ => exists_lead_iff.1 ⟨_, hitem⟩, by simp [hcode]⟩
    | main hcode hitem =>
        exact ⟨by simp [hcode], fun _ => exists_main_iff.1 ⟨_, hitem⟩, by simp [hcode]⟩
    | backup hcode => exact ⟨by simp [hcode], by simp [hcode], by simp [hcode]⟩
    | allocation hcode hcount => exact ⟨by simp [hcode], by simp [hcode], fun _ => hcount⟩
  · rintro ⟨hcode, htype, hcount⟩
    obtain h | h | h | h | h : s.code = 0 ∨ s.code = leadCode ∨ s.code = identityCode ∨
        s.code = backupCode ∨ s.code = allocationCode := by
      simp only [leadCode_eq, identityCode_eq, backupCode_eq, allocationCode_eq] at hcode ⊢
      omega
    · exact ⟨_, ofSector_eq_ok.2 (.free h)⟩
    · obtain ⟨item, hitem⟩ := exists_lead_iff.2 (htype (Or.inl h))
      exact ⟨_, ofSector_eq_ok.2 (.lead h hitem)⟩
    · obtain ⟨item, hitem⟩ := exists_main_iff.2 (htype (Or.inr h))
      exact ⟨_, ofSector_eq_ok.2 (.main h hitem)⟩
    · exact ⟨_, ofSector_eq_ok.2 (.backup h)⟩
    · exact ⟨_, ofSector_eq_ok.2 (.allocation h (hcount h))⟩

/-- The records of a main item decode. -/
theorem decodes_of_mem_records {m : MainItem} (h : s ∈ m.records) : s.Decodes := by
  have hin : Record.ofSector s ∈ m.records.map Record.ofSector := List.mem_map_of_mem h
  rw [ofSector_records] at hin
  obtain ⟨record, -, hrecord⟩ := List.mem_map.1 hin
  exact exists_ofSector_iff.1 ⟨_, hrecord.symm⟩

/-- So do those of a lead item with one main item. -/
theorem decodes_of_mem_cons_records {lead : LeadItem} {range count : Nat} {m : MainItem}
    (h : s ∈ lead.record range count :: m.records) : s.Decodes := by
  rcases List.mem_cons.1 h with rfl | h
  · exact exists_ofSector_iff.1 ⟨_, Record.ofSector_record lead range count⟩
  · exact decodes_of_mem_records h

/-! ### Records and their tags -/

/-- The record in a sector, if there is one that can be made out. -/
def record? (s : Sector) : Option Record := (Record.ofSector s).toOption.join

/-- What a sector is a record of. -/
def tag? (s : Sector) : Option RecordTag :=
  match s.code with
  | 1 => some (.lead (nameOf s))
  | 2 => some (.main (keyOf s))
  | 3 => some (.backup (keyOf s))
  | 4 => some (.allocation (keyOf s) s.sequence)
  | _ => none

theorem tag?_eq_some {t : RecordTag} :
    s.tag? = some t ↔ match t with
      | .lead name => s.code = leadCode ∧ nameOf s = name
      | .main key => s.code = identityCode ∧ keyOf s = key
      | .backup key => s.code = backupCode ∧ keyOf s = key
      | .allocation key sequence =>
        s.code = allocationCode ∧ keyOf s = key ∧ s.sequence = sequence := by
  unfold tag?
  split <;> cases t <;> simp_all

/-- The identity record of a cycle that was neither being cataloged nor being dropped. -/
def live (s : Sector) : Bool :=
  s.code = identityCode && !s.descriptor.toBeCataloged && !s.descriptor.toBeDropped

theorem code_of_live (h : s.live) : s.code = identityCode := by
  unfold live at h
  simp only [Bool.and_eq_true, decide_eq_true_iff] at h
  exact h.1.1

theorem record?_eq_some {r : Record} : s.record? = some r ↔ s.Reads (some r) := by
  rw [← ofSector_eq_ok, record?]
  cases Record.ofSector s <;> simp [Except.toOption]

/-- The item of a lead record has the name, the highest cycle and the greatest range in it. -/
theorem fields_of_lead {item : LeadItem} (h : LeadItem.ofSector s = .ok item) :
    item.name = nameOf s ∧ item.highest = s[10].get .h1 ∧ item.maxRange = s[9].get .h2 := by
  unfold LeadItem.ofSector at h
  split at h
  · cases h
  · cases h
    exact ⟨rfl, rfl, rfl⟩

/-- The item of an identity record has the name of the cycle in it, and the state that the descriptor
flags tell. -/
theorem fields_of_main {item : MainItem} (hcode : s.code = identityCode)
    (h : MainItem.ofSector s = .ok item) :
    item.key = keyOf s ∧ (item.state = .live ↔ s.live = true) ∧ item.table = {} := by
  unfold MainItem.ofSector at h
  split at h
  · cases h
  · cases h
    refine ⟨rfl, ?_, rfl⟩
    unfold live
    dsimp only
    cases s.descriptor.toBeCataloged <;> cases s.descriptor.toBeDropped <;> simp [hcode]

/-- What is made out of a sector that decodes. -/
theorem Decodes.reads (h : s.Decodes) : s.Reads s.record? := by
  obtain ⟨record, hof⟩ := exists_ofSector_iff.2 h
  have hrecord : s.record? = record := by
    unfold Sector.record?
    rw [hof]
    rfl
  rw [hrecord]
  exact ofSector_eq_ok.1 hof

/-- **A sector that decodes is told by its first words.** -/
theorem Decodes.tag?_eq (h : s.Decodes) : s.tag? = s.record?.map Record.tag := by
  have hreads := h.reads
  generalize s.record? = record at hreads ⊢
  rw [tag?]
  cases hreads with
  | free hcode => simp [hcode]
  | lead hcode hitem => simp [hcode, Record.tag, (fields_of_lead hitem).1]
  | main hcode hitem => simp [hcode, Record.tag, (fields_of_main hcode hitem).1]
  | backup hcode => simp [hcode, Record.tag]
  | allocation hcode hcount => simp [hcode, Record.tag]

/-- A sector that decodes identifies a live cycle exactly if its record does. -/
theorem Decodes.liveKey?_eq (h : s.Decodes) :
    s.record?.bind Record.liveKey? = if s.live then some (keyOf s) else none := by
  have hreads := h.reads
  generalize s.record? = record at hreads ⊢
  cases hreads with
  | main hcode hitem =>
      obtain ⟨hkey, hlive, -⟩ := fields_of_main hcode hitem
      simp only [Option.bind_some, liveKey?, hkey, hlive]
  | free hcode => simp [live, hcode]
  | lead hcode => simp [live, hcode, liveKey?]
  | backup hcode => simp [live, hcode, liveKey?]
  | allocation hcode => simp [live, hcode, liveKey?]

end Sector

end FileDirectory
