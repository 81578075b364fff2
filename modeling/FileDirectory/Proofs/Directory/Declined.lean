/-
**A medium that is declined is left alone.**

Recovery stages what it will clear and write again while it still finds out what the records say, but
it carries nothing out before the whole catalog has been rebuilt.  There is always room for what is
staged, in sectors that the medium has; so from then on only an attempt at writing can fail.  Whatever
else makes recovery give up has made it do so before the first attempt.

Main definitions:

* `FileDirectory.Recovery.Declines` — why recovery gives up on a medium that it has not written to.

Main results:

* `FileDirectory.Store.error_of_mem_write` — a sector that there is fails to be written only when it
  was made to fail;
* `FileDirectory.Directory.recover_error_cases` — recovery declines a medium or fails to write to it;
* `FileDirectory.Directory.device_recover_of_declined` — a medium that is declined is left alone.
-/

import FileDirectory.Proofs.Directory.Admitted
import FileDirectory.Proofs.Directory.Rearranged
import FileDirectory.Proofs.Store.Vacant

set_option autoImplicit false

namespace FileDirectory

/-! ### Failing to write -/

/-- An attempt to write a sector that there is fails in one way only. -/
theorem Device.error_of_write {d : Device} {sector : Nat} {content : Sector} {e : MediumError}
    (hsector : sector < d.sectorCount) (h : (d.write sector content).1 = .error e) :
    e = .writeFailed sector := by
  unfold write at h
  split at h
  · cases h
    rfl
  · have hlt : sector < d.medium.sectorCount := hsector
    rw [Medium.refusal?, if_pos hlt] at h
    by_cases hfails : d.medium.failWrites = true
    · rw [if_pos hfails] at h
      cases h
      rfl
    · rw [if_neg hfails] at h
      cases h

/-- **A sector that there is fails to be written only because an attempt was made to fail.** -/
theorem Store.error_of_mem_write {device : Device} {ws : List Write} {f : WriteFailure}
    (hws : ∀ w ∈ ws, w.sector < device.sectorCount) (h : f ∈ (write device ws).2) :
    f.error = .writeFailed f.write.sector := by
  fun_induction write device ws with
  | case1 device => cases h
  | case2 device w ws after hw ih =>
      have hcount := device.sectorCount_write w.sector w.content
      rw [hw] at hcount
      exact ih (fun v hv => hcount ▸ hws v (List.mem_cons_of_mem _ hv)) h
  | case3 device w ws e after hw final failures heq ih =>
      have hcount := device.sectorCount_write w.sector w.content
      rw [hw] at hcount
      rw [heq] at ih
      rcases List.mem_cons.1 h with rfl | h
      · exact Device.error_of_write (hws w List.mem_cons_self) (congrArg Prod.fst hw)
      · exact ih (fun v hv => hcount ▸ hws v (List.mem_cons_of_mem _ hv)) h

/-! ### Giving up -/

namespace Recovery

/-- Why recovery gives up on a medium that it has not written to: a sector cannot be read or made out,
or the records contradict one another. -/
inductive Declines (device : Device) : Failure → Prop
  | unreadable {sector : Nat} (hlt : sector < device.sectorCount)
      (hfails : device.failsRead sector = true) : Declines device (.medium (.readFailed sector))
  | malformed {sector : Nat} {content : Sector} {cause : RecordFault}
      (hread : device.read sector = .ok content) (hrecord : Record.ofSector content = .error cause) :
      Declines device (.malformedRecord cause)
  | inconsistent (cause : Inconsistency) : Declines device (.inconsistent cause)

/-- A device reads every sector that there is, unless it was made to fail. -/
theorem error_of_device_read {device : Device} {sector : Nat} {e : MediumError}
    (hlt : sector < device.sectorCount) (h : device.read sector = .error e) :
    device.failsRead sector = true ∧ e = .readFailed sector := by
  unfold Device.read at h
  split at h
  · rename_i hfails
    cases h
    exact ⟨hfails, rfl⟩
  · have hlt : sector < device.medium.sectorCount := hlt
    rw [Medium.read, if_pos hlt] at h
    cases h

/-- A medium that cannot be read is declined. -/
theorem declines_of_read_error {device : Device} {f : Failure} (h : read device = .error f) :
    Declines device f := by
  have hgoes : ∀ (seen : List RecordTag) (sectors : List Nat),
      (∀ sector ∈ sectors, sector < device.sectorCount) →
      readFrom device seen sectors = .error f → Declines device f := by
    intro seen sectors hlt h
    fun_induction readFrom device seen sectors with
    | case1 seen => cases h
    | case2 seen sector sectors e hread =>
        cases h
        obtain ⟨hfails, rfl⟩ := error_of_device_read (hlt sector List.mem_cons_self) hread
        exact .unreadable (hlt sector List.mem_cons_self) hfails
    | case3 seen sector sectors content hread cause hrecord =>
        cases h
        exact .malformed hread hrecord
    | case4 seen sector sectors content hread hrecord ih =>
        exact ih (fun other hother => hlt other (List.mem_cons_of_mem _ hother)) h
    | case5 seen sector sectors content hread record hrecord hseen =>
        cases h
        exact .inconsistent _
    | case6 seen sector sectors content hread record hrecord hseen ih =>
        refine ih (fun other hother => hlt other (List.mem_cons_of_mem _ hother)) ?_
        cases hrest : readFrom device (record.tag :: seen) sectors with
        | error e =>
            rw [hrest] at h
            cases h
            rfl
        | ok found =>
            rw [hrest] at h
            cases h
  exact hgoes [] (List.range device.sectorCount) (fun sector hsector => List.mem_range.1 hsector) h

end Recovery

namespace Directory

open Recovery

variable {config : Configuration} {device : Device} {f : Failure}

/-- **Recovery declines a medium before it writes to it, or fails to write to it.**  It never lacks
room. -/
theorem recover_error_cases (h : (recover config device).1 = .error f) :
    ((recover config device).2 = device ∧ Declines device f) ∨
      ∃ sector < device.sectorCount, f = .medium (.writeFailed sector) := by
  cases hread : Recovery.read device with
  | error g =>
      rw [recover_of_read_error hread] at h ⊢
      cases h
      exact Or.inl ⟨rfl, declines_of_read_error hread⟩
  | ok found =>
      cases hbuild : rebuild config found with
      | error cause =>
          rw [recover_of_rebuild_error hread hbuild] at h ⊢
          cases h
          exact Or.inl ⟨rfl, .inconsistent cause⟩
      | ok r =>
          refine Or.inr ?_
          obtain ⟨t, staging, hstage⟩ : ∃ t staging, stageAll (initialStore device found r)
              (Staging.free { inUse := Recovery.inUse device found } r.cleared) r.catalog.sets =
                (t, staging) := ⟨_, _, rfl⟩
          obtain ⟨hdevice, -⟩ := placed_rewrite hread hbuild hstage
          obtain ⟨hshortages, -⟩ := roomy_rewrite hread hbuild hstage
          -- only sectors are written that a record was read from
          have hws : ∀ w ∈ staging.writes, w.sector < device.sectorCount := by
            intro w hw
            obtain ⟨found, hfound, hsector⟩ :=
              List.mem_map.1 (sector_mem_of_write hread hbuild hstage w hw)
            rw [← hsector]
            exact sector_lt_of_read hread found hfound
          rw [recover_of_rebuild hread hbuild hstage, hshortages] at h
          cases hfailures : (t.flush staging).2 with
          | nil =>
              rw [hfailures] at h
              cases h
          | cons failure failures =>
              rw [hfailures] at h
              cases h
              have hin : failure ∈ (Store.write t.device staging.writes).2 := by
                have hwrite : (t.flush staging).2 = (Store.write t.device staging.writes).2 := rfl
                rw [← hwrite, hfailures]
                exact List.mem_cons_self
              have herror := Store.error_of_mem_write (hdevice ▸ hws) hin
              exact ⟨failure.write.sector, hws _ (Store.write_mem_of_failure hin),
                congrArg Failure.medium herror⟩

/-- **A medium that is declined is left alone**: whatever sectors cannot be read and whatever attempts
at writing would fail, when recovery gives up for another reason than an attempt that failed, it has not
attempted any. -/
theorem device_recover_of_declined (h : (recover config device).1 = .error f)
    (hwrite : ∀ sector, f ≠ .medium (.writeFailed sector)) :
    (recover config device).2 = device ∧ Declines device f := by
  rcases recover_error_cases h with hdeclined | ⟨sector, -, hfailed⟩
  · exact hdeclined
  · exact absurd hfailed (hwrite sector)

/-- On a healthy device no attempt at writing makes recovery give up. -/
theorem ne_writeFailed_of_healthy (hhealthy : device.Healthy)
    (h : (recover config device).1 = .error f) (sector : Nat) :
    f ≠ .medium (.writeFailed sector) := by
  rintro rfl
  cases hread : Recovery.read device with
  | error g =>
      rw [recover_of_read_error hread] at h
      cases h
      cases declines_of_read_error hread
  | ok found =>
      cases hbuild : rebuild config found with
      | error cause =>
          rw [recover_of_rebuild_error hread hbuild] at h
          cases h
      | ok r =>
          rw [recover_of_rebuild hread hbuild rfl, report_rewrite hread hbuild rfl hhealthy] at h
          cases h

/-- A backup record that belongs to no cycle, and the records of a file set with a disk file of five
tracks. -/
def oversized : List Sector :=
  let item : MainItem := { MainItem.ofLead diskLead 1 .live with table := ⟨[⟨0, 0, 5⟩]⟩ }
  (MainItem.ofLead diskLead 2 .live).backupRecord :: diskLead.record 1 1 :: item.records

/-- A pack of three tracks has no room for the file; the backup record is not cleared either. -/
theorem device_recover_of_declined_oversized :
    ∃ (device : Device) (f : Failure), device.medium.contents = oversized ∧
      (recover { packTracks := 3 } device).1 = .error f ∧
      (∀ sector, f ≠ .medium (.writeFailed sector)) ∧
      (recover { packTracks := 3 } device).2 = device ∧ Declines device f := by
  obtain ⟨device, hhealthy, -, hcontents⟩ :=
    Device.exists_contents (l := oversized) (by decide +kernel)
  have htrack : 3 ∈ claimedIn oversized := by decide +kernel
  cases hrecover : (recover { packTracks := 3 } device).1 with
  | ok d =>
      have hadmissible := admissible_of_recover (Prod.ext hrecover rfl)
      exact absurd (hadmissible.inside 3 (hcontents ▸ htrack)) (by decide)
  | error f =>
      have hwrite := ne_writeFailed_of_healthy hhealthy hrecover
      exact ⟨device, f, hcontents, hrecover, hwrite, device_recover_of_declined hrecover hwrite⟩

end Directory

end FileDirectory
