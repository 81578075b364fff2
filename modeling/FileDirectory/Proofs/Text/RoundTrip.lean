/-
**Names and keys on the medium.**

Text that is read from words and written again comes to the same words: always in Fieldata, and in
quarters as long as no quarter exceeds the codes of ASCII, where every character is one byte.  What was
written therefore tells apart all texts that survive, and among these are the names and the keys that the
directory accepts: no two file sets have the same name on the medium, and no two keys are mistaken for
one another.

Main results:

* `FileDirectory.Quarter.encode_decode` — words of ASCII characters survive being read as text;
* `FileDirectory.Fieldata.eq_of_encode` — texts that survive are told apart by their words;
* `FileDirectory.LeadItem.Accepted.eq_of_record` — accepted names and keys are told apart by lead
  records;
* `FileDirectory.text_survives` — what survives in which coding.
-/

import FileDirectory.Proofs.Record.Lossless
import FileDirectory.Proofs.Text.Fieldata
import FileDirectory.Text.Quarter

set_option autoImplicit false

namespace FileDirectory

/-! ### Quarters -/

namespace Quarter

theorem lawful_coding : coding.Lawful where
  divides := Word.divides_quarters
  code_lt f hf b := by
    have hwidth : ∀ f ∈ Field.quarters, f.width = 9 := by
      simp [Field.quarters, Field.q1, Field.q2, Field.q3, Field.q4]
    rw [hwidth f hf]
    exact Nat.lt_trans b.toNat_lt (by decide)
  code_blank := by decide
  character_space := by decide

/-- A word of ASCII characters can be read. -/
theorem legible {w : Word} (h : ∀ value ∈ w.split Field.quarters, value < 128) :
    coding.Legible w := by
  intro value hvalue
  have hlt := h value hvalue
  have hbyte : (UInt8.ofNat value).toNat = value := by
    rw [UInt8.toNat_ofNat']
    omega
  have hcharacter : (coding.character value).toNat = value := (toNat_latin1Char _).trans hbyte
  rw [hcharacter]
  exact ⟨hlt, hbyte⟩

/-- **Words of ASCII characters survive being read as text.** -/
theorem encode_decode {ws : List Word} (h : ∀ w ∈ ws, ∀ value ∈ w.split Field.quarters, value < 128) :
    encode (decode ws) ws.length = ws :=
  lawful_coding.encode_decode fun w hw => legible (h w hw)

end Quarter

/-! ### Names and keys -/

/-- The names and the keys of a lead item are as the directory accepts them. -/
structure LeadItem.Accepted (lead : LeadItem) : Prop where
  qualifier : NameRole.qualifier.Yields lead.name.qualifier
  filename : NameRole.filename.Yields lead.name.filename
  readKey : NameRole.key.Yields lead.readKey
  writeKey : NameRole.key.Yields lead.writeKey

/-- **Texts that read back as they are do not have the same words.** -/
theorem Fieldata.eq_of_encode {s t : String} {count : Nat} (hs : stored s count = s)
    (ht : stored t count = t) (h : encode s count = encode t count) : s = t :=
  calc s = decode (encode s count) := hs.symm
    _ = decode (encode t count) := by rw [h]
    _ = t := ht

/-- Names that read back as they are do not have the same words. -/
theorem Record.eq_of_nameWords {a b : SetName} (ha : a.stored = a) (hb : b.stored = b)
    (h : nameWords a = nameWords b) : a = b := by
  obtain ⟨hqualifier, hfilename⟩ := List.append_inj h (by simp)
  obtain ⟨haq, haf⟩ := SetName.mk.inj ha
  obtain ⟨hbq, hbf⟩ := SetName.mk.inj hb
  cases a
  cases b
  exact congrArg₂ SetName.mk (Fieldata.eq_of_encode haq hbq hqualifier)
    (Fieldata.eq_of_encode haf hbf hfilename)

/-- The names and the keys of a lead item, if accepted, read back as they are. -/
theorem LeadItem.Accepted.stored_eq {lead : LeadItem} (h : lead.Accepted) :
    lead.stored.name = lead.name ∧ lead.stored.readKey = lead.readKey ∧
      lead.stored.writeKey = lead.writeKey :=
  ⟨stored_name_of_fits h.qualifier.fits h.filename.fits, h.readKey.stored_eq (by decide),
    h.writeKey.stored_eq (by decide)⟩

/-- **Accepted names and keys are told apart by lead records.** -/
theorem LeadItem.Accepted.eq_of_record {a b : LeadItem} (ha : a.Accepted) (hb : b.Accepted)
    {range count range' count' : Nat} (h : a.record range count = b.record range' count') :
    a.name = b.name ∧ a.readKey = b.readKey ∧ a.writeKey = b.writeKey := by
  have hread : a.stored = b.stored := by
    have hsector := congrArg Record.ofSector h
    rw [Record.ofSector_record, Record.ofSector_record] at hsector
    simpa only [Except.ok.injEq, Option.some.injEq, Record.lead.injEq] using hsector
  obtain ⟨hname, hreadKey, hwriteKey⟩ := ha.stored_eq
  rw [← hname, ← hreadKey, ← hwriteKey, hread]
  exact hb.stored_eq

/-! ### What survives -/

/-- **What survives in which coding.**  Words of Fieldata survive being read as text, so that a text which
went through words once is not changed by going through them again, and a text of the characters of names
and keys that fits is not changed at all.  Neither the words of accepted names and keys nor the lead
records that hold them collide.  Words of quarters survive if all their characters are ASCII. -/
theorem text_survives :
    (∀ ws : List Word, Fieldata.encode (Fieldata.decode ws) ws.length = ws) ∧
    (∀ (s : String) (count : Nat), Fieldata.decode (Fieldata.encode
      (Fieldata.decode (Fieldata.encode s count)) count) = Fieldata.decode (Fieldata.encode s count)) ∧
    (∀ (s : String) (count : Nat), (∀ c ∈ s.toList, NameRole.allows c = true) →
      s.toList.length ≤ 6 * count → Fieldata.decode (Fieldata.encode s count) = s) ∧
    (∀ (role : NameRole) (s t a b : String) (count : Nat), role.normalize s = .ok a →
      role.normalize t = .ok b → role.maxLength ≤ 6 * count →
      Fieldata.encode a count = Fieldata.encode b count → a = b) ∧
    (∀ (q f q' f' : String) (a b : SetName), SetName.ofTexts q f = .ok a →
      SetName.ofTexts q' f' = .ok b → Record.nameWords a = Record.nameWords b → a = b) ∧
    (∀ (a b : LeadItem) (range count range' count' : Nat), a.Accepted → b.Accepted →
      a.record range count = b.record range' count' →
      a.name = b.name ∧ a.readKey = b.readKey ∧ a.writeKey = b.writeKey) ∧
    (∀ ws : List Word, (∀ w ∈ ws, ∀ value ∈ w.split Field.quarters, value < 128) →
      Quarter.encode (Quarter.decode ws) ws.length = ws) := by
  refine ⟨Fieldata.encode_decode, Fieldata.stored_stored, fun s count hallows hfits => ?_,
    fun role s t a b count ha hb hcount hwords => ?_, fun q f q' f' a b ha hb hwords => ?_,
    fun a b range count range' count' ha hb => ha.eq_of_record hb, fun ws => Quarter.encode_decode⟩
  · exact Fieldata.stored_of_allows hallows hfits
  · have ha' : role.Yields a := ⟨s, ha⟩
    have hb' : role.Yields b := ⟨t, hb⟩
    exact Fieldata.eq_of_encode (ha'.stored_eq hcount) (hb'.stored_eq hcount) hwords
  · obtain ⟨haq, haf⟩ := Catalog.ofTexts_eq_ok ha
    obtain ⟨hbq, hbf⟩ := Catalog.ofTexts_eq_ok hb
    exact Record.eq_of_nameWords (stored_name_of_fits haq haf) (stored_name_of_fits hbq hbf) hwords

/-- A file set with a window that is too wide for its field, so that its lead record is that of another. -/
def LeadItem.wideRunLog : LeadItem := { runLog with maxRange := 2 ^ 18 + 12 }

/-- The two keys of a file set differ in their words, and so do the names of two file sets; two lead
records that agree are of one name and of the same keys; a name and a word of four characters survive. -/
theorem text_survives_runLog :
    Fieldata.decode (Fieldata.encode "RUN-LOG" 2) = "RUN-LOG" ∧
    Fieldata.encode "RK" 1 ≠ Fieldata.encode "WKEY" 1 ∧
    Record.nameWords ⟨"SYS$", "RUN-LOG"⟩ ≠ Record.nameWords ⟨"SYS$", "RUN-LOGS"⟩ ∧
    (LeadItem.runLog.name = LeadItem.wideRunLog.name ∧
      LeadItem.runLog.readKey = LeadItem.wideRunLog.readKey ∧
      LeadItem.runLog.writeKey = LeadItem.wideRunLog.writeKey) ∧
    Quarter.encode (Quarter.decode [0o113110130040]) 1 = [0o113110130040] := by
  obtain ⟨-, -, hfits, hkeys, hnames, hleads, hquarters⟩ := text_survives
  have hallows : ∀ c ∈ "RUN-LOG".toList, NameRole.allows c = true :=
    (show NameRole.filename.Fits "RUN-LOG".toList from by decide).1
  have hread : NameRole.key.normalize "rk" = .ok "RK" :=
    NameRole.normalize_eq_ok_iff.2 ⟨by decide, rfl⟩
  have hwrite : NameRole.key.normalize "wkey" = .ok "WKEY" :=
    NameRole.normalize_eq_ok_iff.2 ⟨by decide, rfl⟩
  have hlog : SetName.ofTexts "sys$" "run-log" = .ok ⟨"SYS$", "RUN-LOG"⟩ := by decide +kernel
  have hlogs : SetName.ofTexts "sys$" "run-logs" = .ok ⟨"SYS$", "RUN-LOGS"⟩ := by decide +kernel
  have haccepted : LeadItem.runLog.Accepted :=
    ⟨LeadItem.lossless_runLog.qualifier, LeadItem.lossless_runLog.filename,
      LeadItem.lossless_runLog.readKey, LeadItem.lossless_runLog.writeKey⟩
  have hwide : LeadItem.wideRunLog.Accepted :=
    ⟨haccepted.qualifier, haccepted.filename, haccepted.readKey, haccepted.writeKey⟩
  have hrecord : LeadItem.runLog.record 32 1 = LeadItem.wideRunLog.record 32 1 := by decide +kernel
  have hascii : ∀ w ∈ [(0o113110130040 : Word)], ∀ value ∈ w.split Field.quarters, value < 128 :=
    List.forall_mem_singleton.2 (by decide)
  refine ⟨hfits _ 2 hallows (by decide), fun h => ?_, fun h => ?_,
    hleads .runLog .wideRunLog 32 1 32 1 haccepted hwide hrecord, hquarters _ hascii⟩
  · exact absurd (hkeys .key _ _ _ _ 1 hread hwrite (by decide) h) (by decide)
  · exact absurd (hnames _ _ _ _ _ _ hlog hlogs h) (by decide)

end FileDirectory
