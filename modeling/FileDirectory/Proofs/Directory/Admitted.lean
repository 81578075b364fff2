/-
**What recovery accepts.**

On a medium that can be read and written, recovery succeeds or fails by what the sectors say, and only
for five reasons does it fail: a sector cannot be made out; two sectors are records of the same thing;
an identity record lacks the backup record of its cycle or the lead record of its file set; an
allocation record lacks the identity record of its cycle; or the live cycles claim a track twice, or
one that the pack does not have.  Backup records without a cycle and lead records without one are
accepted, and so are overlapping tracks of cycles that were being cataloged or dropped.

Main definitions:

* `FileDirectory.Recovery.Admissible` — none of the five.

Main results:

* `FileDirectory.Directory.recover_iff_admissible` — recovery accepts what is admissible, and nothing
  else.
-/

import FileDirectory.Proofs.Directory.Accepted
import FileDirectory.Proofs.Directory.Journal

set_option autoImplicit false

namespace FileDirectory

open Record

namespace Recovery

/-- The sectors of a medium make up a directory, as far as recovery looks. -/
structure Admissible (config : Configuration) (contents : List Sector) : Prop where
  /-- Every sector is free or can be made out. -/
  decodes : ∀ s ∈ contents, s.Decodes
  /-- No two sectors are records of the same thing. -/
  distinct : (contents.filterMap Sector.tag?).Nodup
  /-- Each cycle has its backup record. -/
  backup : ∀ s ∈ contents, s.code = identityCode →
    ∃ b ∈ contents, b.code = backupCode ∧ keyOf b = keyOf s
  /-- Each cycle has the lead record of its file set. -/
  lead : ∀ s ∈ contents, s.code = identityCode →
    ∃ l ∈ contents, l.code = leadCode ∧ nameOf l = nameOf s
  /-- Each allocation record has the identity record of its cycle. -/
  owner : ∀ s ∈ contents, s.code = allocationCode →
    ∃ m ∈ contents, m.code = identityCode ∧ keyOf m = keyOf s
  /-- The live cycles claim no track twice. -/
  apart : (claimedIn contents).Nodup
  /-- They claim tracks of the pack. -/
  inside : ∀ track ∈ claimedIn contents, track < min config.packTracks Word.maxValue

/-- No sector lacks another exactly if nothing lacks its records. -/
theorem complete_contents_iff {contents : List Sector} :
    ((∀ key, .main key ∈ contents.filterMap Sector.tag? →
        .backup key ∈ contents.filterMap Sector.tag? ∧
          .lead key.set ∈ contents.filterMap Sector.tag?) ∧
      ∀ key sequence, .allocation key sequence ∈ contents.filterMap Sector.tag? →
        .main key ∈ contents.filterMap Sector.tag?) ↔
      (∀ s ∈ contents, s.code = identityCode →
        (∃ b ∈ contents, b.code = backupCode ∧ keyOf b = keyOf s) ∧
          ∃ l ∈ contents, l.code = leadCode ∧ nameOf l = nameOf s) ∧
      ∀ s ∈ contents, s.code = allocationCode →
        ∃ m ∈ contents, m.code = identityCode ∧ keyOf m = keyOf s := by
  simp only [List.mem_filterMap, Sector.tag?_eq_some]
  refine and_congr ?_ ?_
  · constructor
    · exact fun h s hs hcode => h (keyOf s) ⟨s, hs, hcode, rfl⟩
    · rintro h key ⟨s, hs, hcode, rfl⟩
      exact h s hs hcode
  · constructor
    · exact fun h s hs hcode => h (keyOf s) s.sequence ⟨s, hs, hcode, rfl, rfl⟩
    · rintro h key sequence ⟨s, hs, hcode, rfl, -⟩
      exact h s hs hcode

variable {config : Configuration} {device : Device}

/-- What is asked of the records can be told from what they are records of. -/
theorem admissible_of_tags {contents : List Sector} {tags : List RecordTag}
    (hdecodes : ∀ s ∈ contents, s.Decodes) (htags : contents.filterMap Sector.tag? = tags)
    (hnodup : tags.Nodup)
    (hmain : ∀ key, .main key ∈ tags → .backup key ∈ tags ∧ .lead key.set ∈ tags)
    (howner : ∀ key sequence, .allocation key sequence ∈ tags → .main key ∈ tags)
    (hapart : (claimedIn contents).Nodup)
    (hinside : ∀ track ∈ claimedIn contents, track < min config.packTracks Word.maxValue) :
    Admissible config contents := by
  subst htags
  obtain ⟨hcomplete, hallocated⟩ := complete_contents_iff.1 ⟨hmain, howner⟩
  exact {
    decodes := hdecodes
    distinct := hnodup
    backup := fun s hs hcode => (hcomplete s hs hcode).1
    lead := fun s hs hcode => (hcomplete s hs hcode).2
    owner := hallocated
    apart := hapart
    inside := hinside }

/-- The records on a medium are complete exactly if no sector lacks another. -/
theorem complete_ledger_iff
    (hreads : ∀ sector < device.sectorCount, device.failsRead sector = false)
    (hdecodes : ∀ s ∈ device.medium.contents, s.Decodes) :
    Complete (ledger device) ↔
      (∀ s ∈ device.medium.contents, s.code = identityCode →
        (∃ b ∈ device.medium.contents, b.code = backupCode ∧ keyOf b = keyOf s) ∧
          ∃ l ∈ device.medium.contents, l.code = leadCode ∧ nameOf l = nameOf s) ∧
      ∀ s ∈ device.medium.contents, s.code = allocationCode →
        ∃ m ∈ device.medium.contents, m.code = identityCode ∧ keyOf m = keyOf s := by
  rw [complete_iff, tags_ledger hreads hdecodes, complete_contents_iff]

/-- What is admissible is recovered, if the medium can be read and written. -/
theorem Admissible.recover (h : Admissible config device.medium.contents)
    (hhealthy : device.Healthy)
    (hreads : ∀ sector < device.sectorCount, device.failsRead sector = false) :
    ∃ d, (Directory.recover config device).1 = .ok d := by
  obtain ⟨hdecodes, htags, hbackup, hlead, howner, hnodup, hinside⟩ := h
  rw [← tags_ledger hreads hdecodes] at htags
  have hcoherent : Coherent (ledger device) := ⟨htags, (complete_ledger_iff hreads hdecodes).2
    ⟨fun s hs hcode => ⟨hbackup s hs hcode, hlead s hs hcode⟩, howner⟩⟩
  have hperm := perm_tracks_remains hreads hdecodes hcoherent
  obtain ⟨c, hrestart⟩ := exists_restart_iff.2
    ⟨hperm.nodup_iff.2 hnodup, fun track htrack => hinside track (hperm.mem_iff.1 htrack)⟩
  obtain ⟨d, hd, -⟩ :=
    (recover_iff_ledger config hhealthy hreads).2 ⟨hdecodes, hcoherent, hrestart⟩
  exact ⟨d, hd⟩

/-- What is recovered was admissible. -/
theorem admissible_of_recover {d : Directory} {device' : Device}
    (h : Directory.recover config device = (.ok d, device')) :
    Admissible config device.medium.contents := by
  obtain ⟨hreads, hdecodes, hcoherent, hrestart⟩ := of_recover h
  obtain ⟨hnodup, hinside⟩ := exists_restart_iff.1 ⟨_, hrestart⟩
  have hperm := perm_tracks_remains hreads hdecodes hcoherent
  obtain ⟨hmain, howner⟩ := (complete_ledger_iff hreads hdecodes).1 hcoherent.complete
  have htags := hcoherent.tags
  rw [tags_ledger hreads hdecodes] at htags
  exact {
    decodes := hdecodes
    distinct := htags
    backup := fun s hs hcode => (hmain s hs hcode).1
    lead := fun s hs hcode => (hmain s hs hcode).2
    owner := howner
    apart := hperm.nodup_iff.1 hnodup
    inside := fun track htrack => hinside track (hperm.mem_iff.2 htrack) }

end Recovery

namespace Directory

open Recovery

/-- **Recovery accepts what is admissible, and nothing else.**  Nothing is asked of the highest cycle of
a set.  Ages are differences of natural numbers here and do not go below zero; with counters of
thirty-two bits the age of a cycle whose number lies more than 999 above the highest underflows.  What
recovery does with a medium that has such a cycle is outside of this model. -/
theorem recover_iff_admissible (config : Configuration) {device : Device}
    (hhealthy : device.Healthy)
    (hreads : ∀ sector < device.sectorCount, device.failsRead sector = false) :
    (∃ d, (recover config device).1 = .ok d) ↔ Admissible config device.medium.contents :=
  ⟨fun ⟨_, hd⟩ => admissible_of_recover (Prod.ext hd rfl), fun h => h.recover hhealthy hreads⟩

/-- **What is recovered from the medium of a directory**, going by its outline: the cycles of which an
identity record says that they are live, if no record lacks another and they claim no track twice. -/
theorem Outlined.exists_recovered {d : Directory} {o : Store.Outline} (h : d.Outlined o)
    (config : Configuration) (hlegible : d.Legible) (tags : List RecordTag)
    (htags : o.device.contents.filterMap Sector.tag? = tags) (hnodup : tags.Nodup)
    (hmain : ∀ key, .main key ∈ tags → .backup key ∈ tags ∧ .lead key.set ∈ tags)
    (howner : ∀ key sequence, .allocation key sequence ∈ tags → .main key ∈ tags)
    (hapart : (claimedIn o.device.contents).Nodup)
    (hinside : ∀ track ∈ claimedIn o.device.contents, track < min config.packTracks Word.maxValue) :
    ∃ store e, d.store = some store ∧ (Directory.recover config store.device.copy).1 = .ok e ∧
      ∀ key, (∃ set ∈ e.catalog.sets, ∃ c ∈ set.cycles, c.item.key = key) ↔
        key ∈ (o.device.contents.filter Sector.live).map keyOf := by
  obtain ⟨-, store, hstore, -, rfl⟩ := h
  obtain ⟨-, legible, hlegible, -, hreadable⟩ := hlegible
  obtain rfl : legible = store := Option.some.inj (hlegible.symm.trans hstore)
  have hdecodes : ∀ s ∈ legible.device.copy.medium.contents, s.Decodes :=
    (forall_readable_iff fun _ _ => rfl).1 hreadable
  have hadmissible : Admissible config legible.device.copy.medium.contents :=
    admissible_of_tags hdecodes htags hnodup hmain howner hapart hinside
  obtain ⟨e, he⟩ := hadmissible.recover (Device.healthy_copy _) fun _ _ => rfl
  exact ⟨legible, e, hstore, he, fun key => exists_recovered_iff (Prod.ext he rfl)⟩

/-- What is recorded of the directory with one disk file is recovered. -/
theorem recover_oneDisk :
    ∃ d, format {} { medium := .ofSectorCount 4 } = .ok d ∧
      ∃ store, (d.after oneDisk).store = some store ∧
        ∃ e, (recover {} store.device.copy).1 = .ok e := by
  obtain ⟨d, hformat, hquiet, htold⟩ := quiet_oneDisk
  have hmirrored := mirrored_after (by decide) hformat hquiet htold
  obtain ⟨store, hstore, hmirrors⟩ := hmirrored.mirrors
  have hnumbered : ∀ set ∈ (d.after oneDisk).catalog.sets, set.Numbered := by
    rw [((alike_format hformat).after oneDisk).catalog]
    unfold FileSet.Numbered
    decide +kernel
  obtain ⟨e, he⟩ := hmirrored.recover_of_numbered hmirrors hnumbered
  exact ⟨d, hformat, store, hstore, e, he⟩

theorem admissible_oneDisk :
    ∃ d, format {} { medium := .ofSectorCount 4 } = .ok d ∧
      ∃ store, (d.after oneDisk).store = some store ∧
        Admissible {} store.device.copy.medium.contents := by
  obtain ⟨d, hformat, store, hstore, haccepted⟩ := recover_oneDisk
  exact ⟨d, hformat, store, hstore,
    (recover_iff_admissible {} (Device.healthy_copy store.device) fun _ _ => rfl).1 haccepted⟩

end Directory

end FileDirectory
