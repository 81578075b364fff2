/-
**Records read back.**

What a control record holds reads back from its sector, each part cut down to the words that the
record has for it: texts lose the characters that do not fit, numbers the bits that do not.  The
records of a cycle are told apart by their tags, allocation records by a number of six bits.

Main definitions:

* `FileDirectory.LeadItem.stored`, `FileDirectory.MainItem.stored` and the like — what reads back of
  an item;
* `FileDirectory.MainItem.readings` — what reads back of the records of a main item, in their order.

Main results:

* `FileDirectory.Record.ofSector_record` — a lead record reads back;
* `FileDirectory.Record.ofSector_records` — the records of a main item read back;
* `FileDirectory.Record.ofSector_zero` — a sector of zeros holds no record.
-/

import FileDirectory.Proofs.Text.Fieldata
import FileDirectory.Record

set_option autoImplicit false

namespace FileDirectory

/-! ### Flags fit into their fields -/

theorem DescriptorFlags.compose_lt (f : DescriptorFlags) : f.compose < 2 ^ 18 := by
  obtain ⟨a, b, c, d, e, g, h, i, j⟩ := f
  revert a b c d e g h i j
  decide +kernel

theorem InhibitFlags.compose_lt (f : InhibitFlags) : f.compose < 64 := by
  obtain ⟨a, b, c, d, e, g⟩ := f
  revert a b c d e g
  decide +kernel

theorem FileFlags.compose_lt (f : FileFlags) : f.compose < 64 := by
  obtain ⟨a, b⟩ := f
  revert a b
  decide +kernel

theorem DisableFlags.compose_lt (f : DisableFlags) : f.compose < 64 := by
  obtain ⟨a, b, c, d⟩ := f
  revert a b c d
  decide +kernel

theorem Characteristics.compose_lt (f : Characteristics) : f.compose < 64 := by
  obtain ⟨g, w⟩ := f
  cases g <;> cases w <;> decide

theorem FileType.code_lt (t : FileType) : t.code < 64 := by
  cases t <;> decide

/-- The flags of a lead item fit into six bits, and each reads back. -/
theorem LeadItem.flags_spec (lead : LeadItem) :
    lead.flags < 64 ∧ lead.flags.testBit 5 = lead.guarded ∧
      lead.flags.testBit 4 = lead.plusOneExists ∧ lead.flags.testBit 3 = lead.renameInProgress ∧
      (if lead.flags.testBit 2 then DirectoryIndex.shared else .local) = lead.directory ∧
      (if lead.flags.testBit 1 then Access.private else .public) = lead.access := by
  unfold flags
  generalize lead.guarded = guarded, lead.plusOneExists = plusOne,
    lead.renameInProgress = rename, lead.directory = directory, lead.access = access
  cases guarded <;> cases plusOne <;> cases rename <;> cases directory <;> cases access <;> decide

/-! ### What reads back -/

/-- A name as it reads back. -/
def SetName.stored (name : SetName) : SetName :=
  ⟨Fieldata.stored name.qualifier 2, Fieldata.stored name.filename 2⟩

/-- The name of a cycle as it reads back. -/
def CycleKey.stored (key : CycleKey) : CycleKey := ⟨key.set.stored, key.cycle % 2 ^ 18⟩

/-- A lead item as it reads back. -/
def LeadItem.stored (lead : LeadItem) : LeadItem :=
  { lead with
    name := lead.name.stored
    projectId := Fieldata.stored lead.projectId 2
    maxRange := lead.maxRange % 2 ^ 18
    readKey := Fieldata.stored lead.readKey 1
    writeKey := Fieldata.stored lead.writeKey 1
    highest := lead.highest % 2 ^ 18 }

/-- The state that follows from descriptor flags. -/
def DescriptorFlags.state (f : DescriptorFlags) : CycleState :=
  if f.toBeCataloged then .cataloging else if f.toBeDropped then .dropping else .live

/-- What the identity record of a main item reads back as: all but its backup and its extents. -/
def MainItem.stored (m : MainItem) : MainItem where
  key := m.key.stored
  state := m.descriptor.state
  fileType := m.fileType
  projectId := Fieldata.stored m.projectId 2
  accountId := Fieldata.stored m.accountId 2
  characteristics := m.characteristics
  disable := m.disable
  inhibit := m.inhibit
  fileFlags := m.fileFlags
  descriptor := m.descriptor
  placement := m.placement % 2 ^ 18
  assignMnemonic := Fieldata.stored m.assignMnemonic 1
  assigned := m.assigned % 2 ^ 18
  cumulativeAssigns := m.cumulativeAssigns % 2 ^ 36
  timeOfFirstWrite := m.timeOfFirstWrite % 2 ^ 36
  lastReference := m.lastReference % 2 ^ 36
  catalogTime := m.catalogTime % 2 ^ 36
  initialGranules := m.initialGranules % 2 ^ 36
  maxGranules := m.maxGranules % 2 ^ 36
  highestGranule := m.highestGranule % 2 ^ 36
  highestTrackWritten := m.highestTrackWritten % 2 ^ 36

/-- The backup of a cycle as it reads back. -/
def BackupInfo.stored (b : BackupInfo) : BackupInfo where
  creationTime := b.creationTime % 2 ^ 36
  maxLevels := b.maxLevels % 2 ^ 6
  currentLevels := b.currentLevels % 2 ^ 6
  textBlockCount := b.textBlockCount % 2 ^ 36
  startingPosition := b.startingPosition % 2 ^ 36
  reels := (Fieldata.stored b.reels.1 1, Fieldata.stored b.reels.2 1)

/-- An extent as it reads back. -/
def Extent.stored (e : Extent) : Extent :=
  ⟨e.fileTrack % 2 ^ 36, e.packTrack % 2 ^ 36, e.count % 2 ^ 36⟩

/-- What the records of a main item read back as, in the order of their sectors. -/
def MainItem.readings (m : MainItem) : List Record :=
  .main m.stored :: .backup m.key.stored m.backup.stored ::
    (extentGroups m.table.extents).mapIdx fun i extents =>
      .allocation m.key.stored (i % 2 ^ 6) (extents.map Extent.stored)

@[simp] theorem MainItem.length_readings (m : MainItem) : m.readings.length = m.sectorsNeeded := by
  rw [← m.length_records]
  simp [readings, records, allocationRecords]

/-! ### Words of a sector -/

/-- A sector that starts with given words ends in zeros. -/
theorem Sector.toList_ofWords {ws : List Word} (hlength : ws.length ≤ sectorWords) :
    (ofWords ws).toList = ws ++ List.replicate (sectorWords - ws.length) 0 := by
  refine List.ext_getElem ?_ ?_
  · rw [Vector.length_toList, List.length_append, List.length_replicate]
    omega
  · intro i hi₁ hi₂
    rw [Vector.getElem_toList, getElem_ofWords, List.getElem_append]
    split
    · rename_i hlt
      rw [List.getD_eq_getElem?_getD, List.getElem?_eq_getElem hlt, Option.getD_some]
    · rename_i hge
      rw [List.getElem_replicate, List.getD_eq_getElem?_getD,
        List.getElem?_eq_none (Nat.not_lt.1 hge), Option.getD_none]

theorem Sector.run_ofWords {ws : List Word} {start count : Nat} (hlength : ws.length ≤ sectorWords)
    (h : start + count ≤ ws.length) : (ofWords ws).run start count = (ws.drop start).take count := by
  rw [run, toList_ofWords hlength, List.drop_append_of_le_length (by omega),
    List.take_append_of_le_length (by rw [List.length_drop]; omega)]

/-- A text reads back from the words that it was put in. -/
theorem Record.textAt_ofWords {ws : List Word} {start count : Nat} {s : String}
    (hlength : ws.length ≤ sectorWords) (h : start + count ≤ ws.length)
    (hws : (ws.drop start).take count = Fieldata.encode s count) :
    textAt (Sector.ofWords ws) start count = Fieldata.stored s count := by
  rw [textAt, Sector.run_ofWords hlength h, hws, Fieldata.stored]

theorem Record.header_spec (code cycle : Nat) :
    (header code cycle).get .s1 = code % 2 ^ 6 ∧ (header code cycle).get .h2 = cycle % 2 ^ 18 := by
  have hapart : Field.h2.Disjoint Field.s1 := by decide
  refine ⟨?_, ?_⟩
  · rw [header, Word.get_put_of_disjoint _ hapart, Word.get_put_self]
    rfl
  · rw [header, Word.get_put_self]
    rfl

/-- A sector of zeros holds no record. -/
theorem Record.ofSector_zero : Record.ofSector Sector.zero = .ok none := by
  have hword : Sector.zero[0] = (0 : Word) := Sector.getElem_ofWords [] 0 (by decide)
  rw [Record.ofSector, Sector.code, hword, Word.get_zero]
  rfl

/-! ### Lead records -/

namespace Record

/-- The word of the file type, the flags and the greatest range of cycles. -/
theorem typeWord_record (lead : LeadItem) (range count : Nat) :
    (lead.record range count)[9].get .s1 = lead.fileType.code ∧
      (lead.record range count)[9].get .s2 = lead.flags ∧
      (lead.record range count)[9].get .h2 = lead.maxRange % 2 ^ 18 := by
  have hword : (lead.record range count)[9] =
      (((0 : Word).put .s1 lead.fileType.code).put .s2 lead.flags).put .h2 lead.maxRange := by
    rw [LeadItem.record, Sector.getElem_ofWords]
    rfl
  refine ⟨?_, ?_, ?_⟩
  · rw [hword, Word.get_put_of_disjoint _ (by decide), Word.get_put_of_disjoint _ (by decide),
      Word.get_put_self]
    exact Nat.mod_eq_of_lt lead.fileType.code_lt
  · rw [hword, Word.get_put_of_disjoint _ (by decide), Word.get_put_self]
    exact Nat.mod_eq_of_lt lead.flags_spec.1
  · rw [hword, Word.get_put_self]
    rfl

/-- The half of a word that has the highest cycle number. -/
theorem highest_record (lead : LeadItem) (range count : Nat) :
    (lead.record range count)[10].get .h1 = lead.highest % 2 ^ 18 := by
  have hword : (lead.record range count)[10] =
      ((0 : Word).put .h1 lead.highest).put .h2 range := by
    rw [LeadItem.record, Sector.getElem_ofWords]
    rfl
  rw [hword, Word.get_put_of_disjoint _ (by decide), Word.get_put_self]
  rfl

open LeadItem in
/-- **A lead record reads back.** -/
theorem ofSector_record (lead : LeadItem) (range count : Nat) :
    Record.ofSector (lead.record range count) = .ok (some (.lead lead.stored)) := by
  obtain ⟨-, hguarded, hplusOne, hrename, hdirectory, haccess⟩ := lead.flags_spec
  have hcode : (lead.record range count).code = 1 := by
    rw [Sector.code, LeadItem.record, Sector.getElem_ofWords]
    exact (header_spec leadCode 0).1
  obtain ⟨htype, hfield, hrange⟩ := typeWord_record lead range count
  have hname : nameOf (lead.record range count) = lead.name.stored := by
    have hqualifier : textAt (lead.record range count) 1 2 = _ :=
      textAt_ofWords (s := lead.name.qualifier) (by simp; decide) (by simp) rfl
    have hfilename : textAt (lead.record range count) 3 2 = _ :=
      textAt_ofWords (s := lead.name.filename) (by simp; decide) (by simp) rfl
    rw [nameOf, hqualifier, hfilename, SetName.stored]
  have hproject : textAt (lead.record range count) 5 2 = _ :=
    textAt_ofWords (s := lead.projectId) (by simp; decide) (by simp) rfl
  have hreadKey : textAt (lead.record range count) 7 1 = _ :=
    textAt_ofWords (s := lead.readKey) (by simp; decide) (by simp) rfl
  have hwriteKey : textAt (lead.record range count) 8 1 = _ :=
    textAt_ofWords (s := lead.writeKey) (by simp; decide) (by simp) rfl
  have hitem : LeadItem.ofSector (lead.record range count) = .ok lead.stored := by
    unfold LeadItem.ofSector
    rw [htype, FileType.ofCode?_code]
    dsimp only
    rw [hfield, hrange, highest_record, hname, hguarded, hplusOne, hrename, hdirectory, haccess,
      hproject, hreadKey, hwriteKey]
    rfl
  rw [Record.ofSector, hcode, hitem]
  rfl

/-! ### The records of a main item -/

/-- The name in a record that starts with a header and a name. -/
theorem keyOf_ofWords {cycle : Nat} {name : SetName} {ws : List Word} {word : Word}
    (hlength : ws.length ≤ 23) (hcycle : word.get .h2 = cycle % 2 ^ 18) :
    keyOf (Sector.ofWords (word :: (nameWords name ++ ws))) =
      (⟨name, cycle⟩ : CycleKey).stored := by
  have hwords : (word :: (nameWords name ++ ws)).length = 5 + ws.length := by
    simp
    omega
  have hsector : sectorWords = 28 := rfl
  have hfirst : (Sector.ofWords (word :: (nameWords name ++ ws)))[0] = word :=
    Sector.getElem_ofWords _ 0 (by decide)
  have hqualifier : textAt (Sector.ofWords (word :: (nameWords name ++ ws))) 1 2 =
      Fieldata.stored name.qualifier 2 := textAt_ofWords (by omega) (by omega) rfl
  have hfilename : textAt (Sector.ofWords (word :: (nameWords name ++ ws))) 3 2 =
      Fieldata.stored name.filename 2 := textAt_ofWords (by omega) (by omega) rfl
  rw [keyOf, nameOf, hqualifier, hfilename, hfirst, hcycle]
  rfl

/-- A number reads back from the word that it was put in, as far as a word holds it. -/
theorem toNat_of_eq_ofNat {w : Word} {n : Nat} (h : w = Word.ofNat n) : w.toNat = n % 2 ^ 36 := by
  rw [h, Word.toNat_ofNat]

/-- The sixths of the word of flags. -/
theorem split_identityRecord (m : MainItem) :
    m.identityRecord[9].split Field.sixths = [m.fileType.code, m.characteristics.compose,
      m.disable.compose, m.inhibit.compose, m.fileFlags.compose, 0] := by
  have hnine : m.identityRecord[9] = Word.join Field.sixths [m.fileType.code,
      m.characteristics.compose, m.disable.compose, m.inhibit.compose, m.fileFlags.compose, 0] := by
    rw [MainItem.identityRecord, Sector.getElem_ofWords]
    rfl
  rw [hnine]
  refine Word.split_join_sixths (Nat.le_refl 6) ?_
  simp only [List.forall_mem_cons]
  exact ⟨m.fileType.code_lt, m.characteristics.compose_lt, m.disable.compose_lt,
    m.inhibit.compose_lt, m.fileFlags.compose_lt, by decide, by simp⟩

/-- The halves of the word of the descriptor. -/
theorem descriptor_identityRecord (m : MainItem) :
    m.identityRecord.descriptor = m.descriptor ∧
      m.identityRecord[10].get .h2 = m.placement % 2 ^ 18 := by
  have hten : m.identityRecord[10] =
      ((0 : Word).put .h1 m.descriptor.compose).put .h2 m.placement := by
    rw [MainItem.identityRecord, Sector.getElem_ofWords]
    rfl
  have hhalf : m.identityRecord[10].get .h1 = m.descriptor.compose := by
    rw [hten, Word.get_put_of_disjoint _ (by decide), Word.get_put_self]
    exact Nat.mod_eq_of_lt m.descriptor.compose_lt
  refine ⟨?_, ?_⟩
  · rw [Sector.descriptor, hhalf, DescriptorFlags.extract_compose]
  · rw [hten, Word.get_put_self]
    rfl

theorem ofSector_identityRecord (m : MainItem) :
    Record.ofSector m.identityRecord = .ok (some (.main m.stored)) := by
  have hcode : m.identityRecord.code = 2 := by
    rw [Sector.code, MainItem.identityRecord, Sector.getElem_ofWords]
    exact (header_spec identityCode m.key.cycle).1
  have hkey : keyOf m.identityRecord = m.key.stored :=
    keyOf_ofWords (by simp) (header_spec identityCode m.key.cycle).2
  have hsixths := split_identityRecord m
  simp only [Word.split, Field.sixths, List.map_cons, List.map_nil, List.cons.injEq,
    and_true] at hsixths
  obtain ⟨htype, hcharacteristics, hdisable, hinhibit, hflags, -⟩ := hsixths
  obtain ⟨hdescriptor, hplacement⟩ := descriptor_identityRecord m
  -- the words behind the twelfth hold one number each
  have hread : ∀ (i : Nat) (hi : i < sectorWords), m.identityRecord[i] = _ :=
    fun i hi => Sector.getElem_ofWords _ i hi
  have hassigned : m.identityRecord[12].get .h1 = m.assigned % 2 ^ 18 := by
    have htwelve : m.identityRecord[12] = (0 : Word).put .h1 m.assigned := hread 12 (by decide)
    rw [htwelve, Word.get_put_self]
    rfl
  have hproject : textAt m.identityRecord 5 2 = _ :=
    textAt_ofWords (s := m.projectId) (by simp; decide) (by simp) rfl
  have haccount : textAt m.identityRecord 7 2 = _ :=
    textAt_ofWords (s := m.accountId) (by simp; decide) (by simp) rfl
  have hmnemonic : textAt m.identityRecord 11 1 = _ :=
    textAt_ofWords (s := m.assignMnemonic) (by simp; decide) (by simp) rfl
  have hitem : MainItem.ofSector m.identityRecord = .ok m.stored := by
    unfold MainItem.ofSector
    rw [htype, FileType.ofCode?_code]
    dsimp only
    rw [hcharacteristics, hdisable, hinhibit, hflags, hdescriptor, hplacement, hassigned, hkey,
      Characteristics.extract_compose, DisableFlags.extract_compose, InhibitFlags.extract_compose,
      FileFlags.extract_compose,
      hproject, haccount, hmnemonic,
      toNat_of_eq_ofNat (n := m.cumulativeAssigns) (hread 13 (by decide)),
      toNat_of_eq_ofNat (n := m.timeOfFirstWrite) (hread 14 (by decide)),
      toNat_of_eq_ofNat (n := m.lastReference) (hread 15 (by decide)),
      toNat_of_eq_ofNat (n := m.catalogTime) (hread 16 (by decide)),
      toNat_of_eq_ofNat (n := m.initialGranules) (hread 17 (by decide)),
      toNat_of_eq_ofNat (n := m.maxGranules) (hread 18 (by decide)),
      toNat_of_eq_ofNat (n := m.highestGranule) (hread 19 (by decide)),
      toNat_of_eq_ofNat (n := m.highestTrackWritten) (hread 20 (by decide))]
    rfl
  rw [Record.ofSector, hcode, hitem]
  rfl

theorem ofSector_backupRecord (m : MainItem) :
    Record.ofSector m.backupRecord = .ok (some (.backup m.key.stored m.backup.stored)) := by
  have hcode : m.backupRecord.code = 3 := by
    rw [Sector.code, MainItem.backupRecord, Sector.getElem_ofWords]
    exact (header_spec backupCode m.key.cycle).1
  have hkey : keyOf m.backupRecord = m.key.stored :=
    keyOf_ofWords (by simp) (header_spec backupCode m.key.cycle).2
  have hread : ∀ (i : Nat) (hi : i < sectorWords), m.backupRecord[i] = _ :=
    fun i hi => Sector.getElem_ofWords _ i hi
  have hsix : m.backupRecord[6] =
      ((0 : Word).put .s1 m.backup.maxLevels).put .s2 m.backup.currentLevels :=
    hread 6 (by decide)
  have hfirst : textAt m.backupRecord 9 1 = _ :=
    textAt_ofWords (s := m.backup.reels.1) (by simp; decide) (by simp) rfl
  have hsecond : textAt m.backupRecord 10 1 = _ :=
    textAt_ofWords (s := m.backup.reels.2) (by simp; decide) (by simp) rfl
  have hinfo : BackupInfo.ofSector m.backupRecord = m.backup.stored := by
    unfold BackupInfo.ofSector
    rw [toNat_of_eq_ofNat (n := m.backup.creationTime) (hread 5 (by decide)), hsix,
      Word.get_put_of_disjoint _ (by decide), Word.get_put_self, Word.get_put_self,
      toNat_of_eq_ofNat (n := m.backup.textBlockCount) (hread 7 (by decide)),
      toNat_of_eq_ofNat (n := m.backup.startingPosition) (hread 8 (by decide)),
      hfirst, hsecond]
    rfl
  rw [Record.ofSector, hcode, hkey, hinfo]
  rfl

/-! ### Allocation records -/

/-- Extents read back from a run of words that starts with theirs. -/
theorem extentsOf_flatMap (extents : List Extent) (ws : List Word) :
    extentsOf extents.length (extents.flatMap MainItem.extentWords ++ ws) =
      extents.map Extent.stored := by
  induction extents with
  | nil => cases ws <;> rfl
  | cons e extents ih =>
      rw [List.map_cons, ← ih]
      simp only [List.flatMap_cons, MainItem.extentWords, List.length_cons, List.cons_append,
        List.nil_append, extentsOf, Word.toNat_ofNat]
      rfl

theorem length_flatMap_extentWords (extents : List Extent) :
    (extents.flatMap MainItem.extentWords).length = 3 * extents.length := by
  induction extents with
  | nil => rfl
  | cons e extents ih =>
      rw [List.flatMap_cons, List.length_append, ih, List.length_cons]
      show 3 + 3 * extents.length = 3 * (extents.length + 1)
      omega

/-- The extents stand behind the six words at the front. -/
theorem run_allocationRecord (key : CycleKey) (sequence : Nat) {extents : List Extent}
    (h : extents.length ≤ extentsPerRecord) :
    ∃ rest, (MainItem.allocationRecord key sequence extents).run 6 (3 * extentsPerRecord) =
      extents.flatMap MainItem.extentWords ++ rest := by
  have hseven : extentsPerRecord = 7 := rfl
  have htwenty : sectorWords = 28 := rfl
  have hlength := length_flatMap_extentWords extents
  have hall : ([(header allocationCode key.cycle).put .s2 sequence] ++ nameWords key.set ++
      [(0 : Word).put .h1 extents.length] ++ extents.flatMap MainItem.extentWords).length =
      6 + 3 * extents.length := by
    rw [List.length_append, hlength]
    rfl
  have hdrop : ([(header allocationCode key.cycle).put .s2 sequence] ++ nameWords key.set ++
      [(0 : Word).put .h1 extents.length] ++ extents.flatMap MainItem.extentWords).drop 6 =
      extents.flatMap MainItem.extentWords := rfl
  rw [MainItem.allocationRecord, Sector.run, Sector.toList_ofWords (by omega),
    List.drop_append_of_le_length (by omega), hdrop, List.take_append,
    List.take_of_length_le (by omega)]
  exact ⟨_, rfl⟩

/-- The extents of an allocation record read back. -/
theorem extentsAt_allocationRecord (key : CycleKey) (sequence : Nat) {extents : List Extent}
    (h : extents.length ≤ extentsPerRecord) :
    extentsAt (MainItem.allocationRecord key sequence extents) =
      .ok (extents.map Extent.stored) := by
  have hseven : extentsPerRecord = 7 := rfl
  have hfive : (MainItem.allocationRecord key sequence extents)[5] =
      (0 : Word).put .h1 extents.length := by
    rw [MainItem.allocationRecord, Sector.getElem_ofWords]
    rfl
  have hcount : (MainItem.allocationRecord key sequence extents)[5].get .h1 = extents.length := by
    rw [hfive, Word.get_put_self]
    refine Nat.mod_eq_of_lt ?_
    show extents.length < 262144
    omega
  obtain ⟨rest, hrest⟩ := run_allocationRecord key sequence h
  unfold extentsAt
  dsimp only
  rw [Sector.extents, hcount, hrest, extentsOf_flatMap, if_neg (Nat.not_lt.2 h)]

theorem ofSector_allocationRecord (key : CycleKey) (sequence : Nat) {extents : List Extent}
    (h : extents.length ≤ extentsPerRecord) :
    Record.ofSector (MainItem.allocationRecord key sequence extents) =
      .ok (some (.allocation key.stored (sequence % 2 ^ 6) (extents.map Extent.stored))) := by
  have hseven : extentsPerRecord = 7 := rfl
  have hlength := length_flatMap_extentWords extents
  have hhead : ((header allocationCode key.cycle).put .s2 sequence).get .s1 = 4 ∧
      ((header allocationCode key.cycle).put .s2 sequence).get .h2 = key.cycle % 2 ^ 18 := by
    rw [Word.get_put_of_disjoint _ (by decide), Word.get_put_of_disjoint _ (by decide)]
    exact header_spec allocationCode key.cycle
  have hfirst : (MainItem.allocationRecord key sequence extents)[0] =
      (header allocationCode key.cycle).put .s2 sequence := by
    rw [MainItem.allocationRecord, Sector.getElem_ofWords]
    rfl
  have hcode : (MainItem.allocationRecord key sequence extents).code = 4 := by
    rw [Sector.code, hfirst]
    exact hhead.1
  have hsequence : (MainItem.allocationRecord key sequence extents).sequence =
      sequence % 2 ^ 6 := by
    rw [Sector.sequence, hfirst, Word.get_put_self]
    rfl
  have hkey : keyOf (MainItem.allocationRecord key sequence extents) = key.stored :=
    @keyOf_ofWords key.cycle key.set
      ([(0 : Word).put .h1 extents.length] ++ extents.flatMap MainItem.extentWords) _
      (by rw [List.length_append, hlength, List.length_singleton]; omega) hhead.2
  rw [Record.ofSector, hcode, hkey, hsequence, extentsAt_allocationRecord key sequence h]
  rfl

end Record

/-! ### Groups of extents -/

/-- Grouping extents loses none, and no group is empty or larger than a record. -/
theorem extentGroups_spec (es : List Extent) :
    (extentGroups es).flatten = es ∧
      ∀ group ∈ extentGroups es, group ≠ [] ∧ group.length ≤ extentsPerRecord := by
  fun_induction extentGroups es with
  | case1 => exact ⟨rfl, fun _ h => (by cases h)⟩
  | case2 e es ih =>
      obtain ⟨hflatten, hgroups⟩ := ih
      refine ⟨?_, ?_⟩
      · rw [List.flatten_cons, hflatten, List.cons_append, List.take_append_drop]
      · intro group hgroup
        rcases List.mem_cons.1 hgroup with rfl | hgroup
        · refine ⟨List.cons_ne_nil _ _, ?_⟩
          rw [List.length_cons, List.length_take]
          exact Nat.succ_le_of_lt (Nat.lt_of_le_of_lt (Nat.min_le_left _ _) (by decide))
        · exact hgroups group hgroup

namespace Record

/-- **The records of a main item read back**, each from its sector. -/
theorem ofSector_records (m : MainItem) :
    m.records.map Record.ofSector = m.readings.map fun record => .ok (some record) := by
  rw [MainItem.records, MainItem.readings, List.map_cons, List.map_cons, List.map_cons,
    List.map_cons, ofSector_identityRecord, ofSector_backupRecord, MainItem.allocationRecords]
  refine congrArg _ (congrArg _ ?_)
  refine List.ext_getElem (by simp) ?_
  intro i hi₁ hi₂
  rw [List.length_map, List.length_mapIdx] at hi₁
  rw [List.getElem_map, List.getElem_map, List.getElem_mapIdx, List.getElem_mapIdx]
  exact ofSector_allocationRecord m.key i
    ((extentGroups_spec m.table.extents).2 _ (List.getElem_mem hi₁)).2

end Record

end FileDirectory
