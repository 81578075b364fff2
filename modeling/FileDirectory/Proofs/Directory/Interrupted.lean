/-
**Stopping in the middle of a request.**

The writes of a request reach the medium one after another, and nothing protects them as a whole.  If
the executive stops after the first few of them, recovery finds the records that were there before with
those few put in their places.  It goes on with the file sets as they were before the request, or as
they are after it, exactly if these records contradict nothing and leave what the records before or
the records after leave.

Main definitions:

* `FileDirectory.Recovery.cut` — an image with the first of some writes and no more;
* `FileDirectory.Directory.Survives` — such an image is recovered as that before or that after is;
* `FileDirectory.Recovery.Harmless` — what this comes to for the records.

Main results:

* `FileDirectory.Directory.survives_after_iff` — when a request survives a stop;
* `FileDirectory.Directory.creation_refused` — no creation survives every stop.
-/

import FileDirectory.Proofs.Directory.Accepted
import FileDirectory.Proofs.Directory.Journal

set_option autoImplicit false

namespace FileDirectory

namespace Recovery

/-! ### The records at a stop -/

/-- The image of a device after the first `k` of some writes. -/
def cut (device : Device) (ws : List Write) (k : Nat) : Device :=
  (Store.write device.copy (ws.take k)).1

/-- The records at a stop contradict nothing, their tracks can be claimed, and they leave what those
before or those after leave. -/
structure Harmless (config : Configuration) (before now after : List Found) : Prop where
  coherent : Coherent now
  claimable : ∃ catalog, restart config (remains now) = .ok catalog
  same : Coherent before ∧ remains now = remains before ∨
    Coherent after ∧ remains now = remains after

end Recovery

namespace Directory

open Recovery

/-! ### Surviving a stop -/

/-- Recovery of an image gives a catalog. -/
def Recovers (config : Configuration) (device : Device) (catalog : Catalog) : Prop :=
  ∃ e, (recover config device).1 = .ok e ∧ e.catalog = catalog

/-- A device survives a stop after the first `k` of some writes: its image is then recovered, as the
image before all of the writes is or as the image after all of them is. -/
def Survives (config : Configuration) (device : Device) (ws : List Write) (k : Nat) : Prop :=
  ∃ catalog, Recovers config (cut device ws k) catalog ∧
    (Recovers config (cut device ws 0) catalog ∨ Recovers config (cut device ws ws.length) catalog)

theorem recovers_cut_iff (config : Configuration) {device : Device}
    (hreadable : ∀ sector < device.sectorCount, Readable device.copy sector) {ws : List Write}
    (hws : ∀ w ∈ ws, w.Legible ∧ w.sector < device.sectorCount) (k : Nat) {catalog : Catalog} :
    Recovers config (cut device ws k) catalog ↔
      Coherent (replay (ledger device.copy) (ws.take k)) ∧
        restart config (remains (replay (ledger device.copy) (ws.take k))) = .ok catalog := by
  have htake : ∀ w ∈ ws.take k, w.Legible ∧ w.sector < device.copy.sectorCount :=
    fun w hw => hws w (List.mem_of_mem_take hw)
  have hheld := (holds_ledger hreadable).write device.healthy_copy (fun _ => rfl)
    (fun w hw => (htake w hw).2) fun w hw => (htake w hw).1
  have hhealthy := (Store.write_healthy device.healthy_copy fun w hw => (htake w hw).2).2
  exact recover_iff config hhealthy hheld

/-- **When a device survives a stop.** -/
theorem survives_iff (config : Configuration) {device : Device}
    (hreadable : ∀ sector < device.sectorCount, Readable device.copy sector) {ws : List Write}
    (hws : ∀ w ∈ ws, w.Legible ∧ w.sector < device.sectorCount) (k : Nat) :
    Survives config device ws k ↔
      Harmless config (ledger device.copy) (replay (ledger device.copy) (ws.take k))
        (replay (ledger device.copy) ws) := by
  have hcut := recovers_cut_iff config hreadable hws
  have hbefore : ∀ catalog, Recovers config (cut device ws 0) catalog ↔
      Coherent (ledger device.copy) ∧ restart config (remains (ledger device.copy)) = .ok catalog :=
    fun catalog => hcut 0
  have hafter : ∀ catalog, Recovers config (cut device ws ws.length) catalog ↔
      Coherent (replay (ledger device.copy) ws) ∧
        restart config (remains (replay (ledger device.copy) ws)) = .ok catalog := by
    intro catalog
    have hall : Recovers config (cut device ws ws.length) catalog ↔ _ := hcut ws.length
    rwa [List.take_length] at hall
  unfold Survives
  constructor
  · rintro ⟨catalog, hnow, hsame⟩
    obtain ⟨hcoherent, hrestart⟩ := (hcut k).1 hnow
    refine ⟨hcoherent, ⟨catalog, hrestart⟩, ?_⟩
    rcases hsame with hsame | hsame
    · obtain ⟨hcoherent', hrestart'⟩ := (hbefore catalog).1 hsame
      exact Or.inl ⟨hcoherent', restart_injective hrestart hrestart'⟩
    · obtain ⟨hcoherent', hrestart'⟩ := (hafter catalog).1 hsame
      exact Or.inr ⟨hcoherent', restart_injective hrestart hrestart'⟩
  · rintro ⟨hcoherent, ⟨catalog, hrestart⟩, hsame⟩
    refine ⟨catalog, (hcut k).2 ⟨hcoherent, hrestart⟩, ?_⟩
    rcases hsame with ⟨hcoherent', heq⟩ | ⟨hcoherent', heq⟩
    · exact Or.inl ((hbefore catalog).2 ⟨hcoherent', heq ▸ hrestart⟩)
    · exact Or.inr ((hafter catalog).2 ⟨hcoherent', heq ▸ hrestart⟩)

/-- **When a request survives a stop**: for every directory that was set up, after every history, and
for every request, a stop after the first `k` sector writes of the request is survived exactly if the
records that are then on the medium do no harm. -/
theorem survives_after_iff {config : Configuration} {device : Device} {d : Directory}
    (hformat : format config device = .ok d) (history : List (Call × Request)) (call : Call)
    (r : Request) (k : Nat) :
    ∃ store, (d.after history).store = some store ∧
      (Survives config store.device ((d.after history).writes call r) k ↔
        Harmless config (ledger store.device.copy)
          (replay (ledger store.device.copy) (((d.after history).writes call r).take k))
          (replay (ledger store.device.copy) ((d.after history).writes call r))) := by
  have hlegible := legible_after hformat history
  have hwrites := hlegible.writes call r
  obtain ⟨-, store, hstore, -, hreadable⟩ := hlegible
  refine ⟨store, hstore, survives_iff config hreadable ?_ k⟩
  intro w hw
  obtain ⟨hw, hbound⟩ := hwrites w hw
  refine ⟨hw, hbound store.device ?_⟩
  rw [device?, hstore]
  rfl

theorem survives_after_oneDisk :
    ∃ d, format {} { medium := .ofSectorCount 4 } = .ok d ∧
      ∃ store, (d.after []).store = some store ∧
        (Survives {} store.device ((d.after []).writes diskCall (.createDisk diskRequest)) 2 ↔
          Harmless {} (ledger store.device.copy)
            (replay (ledger store.device.copy)
              (((d.after []).writes diskCall (.createDisk diskRequest)).take 2))
            (replay (ledger store.device.copy)
              ((d.after []).writes diskCall (.createDisk diskRequest)))) := by
  obtain ⟨d, hformat⟩ := format_of_healthy {} (Device.healthy_blank 4)
  exact ⟨d, hformat, survives_after_iff hformat [] diskCall (.createDisk diskRequest) 2⟩

end Directory

/-! ### Stopping in the middle of a creation -/

namespace Recovery

/-- A record is there after some writes because it was there before or was written. -/
theorem mem_replay {found : List Found} {ws : List Write} {f : Found} (h : f ∈ replay found ws) :
    f ∈ found ∨ ∃ w ∈ ws, foundIn w = some f := by
  induction ws generalizing found with
  | nil => exact Or.inl h
  | cons w ws ih =>
      rcases ih h with hin | ⟨v, hv, hfound⟩
      · rcases mem_overwrite.1 hin with hfound | ⟨hin, -⟩
        · exact Or.inr ⟨w, List.mem_cons_self, hfound⟩
        · exact Or.inl hin
      · exact Or.inr ⟨v, List.mem_cons_of_mem _ hv, hfound⟩

/-- Only the records of a cycle are backup records under its name. -/
theorem key_of_backup {file : FileId} {item : MainItem} {sectors : List Nat} {w : Write}
    (hw : w ∈ Staging.recording file item sectors) {sector : Nat} {key : CycleKey}
    {info : BackupInfo} (hfound : foundIn w = some ⟨sector, .backup key info⟩) :
    key = item.key.stored := by
  obtain ⟨⟨at', content⟩, hzip, rfl⟩ := List.mem_map.1 hw
  have hin : Record.ofSector content ∈ item.records.map Record.ofSector :=
    List.mem_map_of_mem (List.of_mem_zip hzip).2
  rw [Record.ofSector_records, (foundIn_eq_some.1 hfound).2] at hin
  obtain ⟨record, hreading, heq⟩ := List.mem_map.1 hin
  obtain rfl := Option.some.inj (Except.ok.inj heq)
  exact (MainItem.backup_mem_readings.1 hreading).1

end Recovery

namespace Staging

theorem cycles_append (s : Staging) (p : Placement) (first rest : List (FileId × MainItem)) :
    (s.cycles p (first ++ rest)).2 = ((s.cycles p first).2.cycles p rest).2 := by
  induction first generalizing s with
  | nil => rfl
  | cons entry first ih => exact ih (s.cycle entry.1 entry.2 (p.sectorsOf entry.1)).2

end Staging

/-- **The identity record of a new cycle is written before its backup record**: what is written before
it are cleared sectors, the lead record and the records of the other cycles. -/
theorem Store.writes_enter {s : Store} {name : SetName} {set : FileSet} {old : List FileCycle}
    {new : FileCycle} (hcycles : set.cycles = old ++ [new])
    (hroom : (s.stage name (some set)).2.shortages = []) :
    ∃ before sector after, (s.stage name (some set)).2.writes =
        before ++ ⟨sector, (s.shown new).identityRecord, some new.file⟩ :: after ∧
      ∀ {P : Write → Prop}, (∀ sectors, ∀ w ∈ Staging.clearing sectors, P w) →
        (∀ l, P (Staging.leadWrite set l)) →
        (∀ c ∈ old, ∀ kept, ∀ w ∈ Staging.recording c.file (s.shown c) kept, P w) →
        ∀ w ∈ before, P w := by
  -- sectors that nobody needs are cleared, then the lead record and the cycles are staged, the new
  -- one last
  obtain ⟨gone, hstage⟩ : ∃ gone, (s.stage name (some set)).2 =
      (((Staging.free { inUse := s.inUse } gone).lead set (s.placement name).lead).2.cycles
        (s.placement name) (set.cycles.map fun c => (c.file, s.shown c))).2 := ⟨_, rfl⟩
  rw [hstage, hcycles, List.map_append, List.map_singleton, Staging.cycles_append] at hroom ⊢
  have hall : ∀ {P : Write → Prop}, (∀ sectors, ∀ w ∈ Staging.clearing sectors, P w) →
      (∀ l, P (Staging.leadWrite set l)) →
      (∀ c ∈ old, ∀ kept, ∀ w ∈ Staging.recording c.file (s.shown c) kept, P w) →
      ∀ w ∈ ((((Staging.free { inUse := s.inUse } gone).lead set (s.placement name).lead).2.cycles
        (s.placement name) (old.map fun c => (c.file, s.shown c))).2).writes, P w := by
    intro P hclear hlead hrecord
    refine Staging.forall_cycles (Staging.forall_lead (Staging.forall_free ?_ (hclear gone)) hlead _)
      hclear ?_ _
    · exact fun _ hw => absurd hw List.not_mem_nil
    · intro entry hentry
      obtain ⟨c, hc, rfl⟩ := List.mem_map.1 hentry
      exact hrecord c hc
  generalize (((Staging.free { inUse := s.inUse } gone).lead set (s.placement name).lead).2.cycles
    (s.placement name) (old.map fun c => (c.file, s.shown c))).2 = t at hroom hall ⊢
  obtain ⟨claimed, freed, writes, haccount, hsettled⟩ :=
    t.account_cycle new.file (s.shown new) ((s.placement name).sectorsOf new.file)
  change (t.cycle new.file (s.shown new) ((s.placement name).sectorsOf new.file)).2.shortages = []
    at hroom
  generalize (t.cycle new.file (s.shown new) ((s.placement name).sectorsOf new.file)).1 = kept
    at haccount hsettled
  cases hsettled with
  | short _ _ hshortages _ =>
      rw [hroom] at hshortages
      exact absurd hshortages.symm (List.append_ne_nil_of_right_ne_nil _ (List.cons_ne_nil _ _))
  | placed hlength hwrites _ _ =>
      -- a cycle takes two sectors at least, and its identity record the first of them
      obtain ⟨sector, rest, rfl⟩ : ∃ sector rest, kept = sector :: rest := by
        refine List.exists_cons_of_ne_nil (List.ne_nil_of_length_pos ?_)
        rw [hlength]
        exact Nat.lt_of_lt_of_le Nat.two_pos (Nat.le_add_right 2 _)
      refine ⟨t.writes ++ Staging.clearing freed, sector,
        ((rest.zip ((s.shown new).backupRecord :: (s.shown new).allocationRecords)).map
          fun p => ⟨p.1, p.2, some new.file⟩), ?_, ?_⟩
      · rw [List.append_assoc]
        exact haccount.writes_eq.trans (congrArg (t.writes ++ ·) hwrites)
      · intro P hclear hlead hrecord w hw
        rcases List.mem_append.1 hw with hw | hw
        · exact hall hclear hlead hrecord w hw
        · exact hclear freed w hw

namespace Directory

open Recovery

/-- A backup record on a medium that mirrors a directory is that of one of its cycles. -/
theorem Mirrored.exists_of_backup {config : Configuration} {d : Directory} {store : Store}
    (h : Mirrored config d) (hmirrors : store.Mirrors d.catalog) {sector : Nat} {key : CycleKey}
    {info : BackupInfo} (hin : ⟨sector, .backup key info⟩ ∈ ledger store.device.copy) :
    ∃ set ∈ d.catalog.sets, ∃ c ∈ set.cycles, c.item.key = key := by
  have hcarries := hmirrors.carries h.recordable
  have hentry := (hcarries.holds h.indexed).perm_found.mem_iff.1 hin
  obtain ⟨set, hset, hin⟩ := List.mem_flatMap.1 hentry
  obtain ⟨c, hc, rfl, -⟩ :=
    (Store.exists_backup_entries (hcarries.whole h.indexed hset)).1 ⟨sector, hin⟩
  exact ⟨set, hset, c, hc, (h.recordable.items set hset c hc).key.symm⟩

/-- No backup record is under the name of a new cycle where only sectors are cleared, lead records and
the records of other cycles are written. -/
theorem backup_notMem_of_before {store : Store} {old : List FileCycle} {key : CycleKey}
    (hold : ∀ c ∈ old, c.item.key.stored ≠ key) {before : List Write}
    (hbefore : ∀ {P : Write → Prop}, (∀ sectors, ∀ w ∈ Staging.clearing sectors, P w) →
      (∀ set l, P (Staging.leadWrite set l)) →
      (∀ c ∈ old, ∀ kept, ∀ w ∈ Staging.recording c.file (store.shown c) kept, P w) →
      ∀ w ∈ before, P w) {sector : Nat} {info : BackupInfo} :
    ∀ w ∈ before, foundIn w ≠ some ⟨sector, .backup key info⟩ := by
  refine hbefore ?_ ?_ ?_
  · intro sectors v hv hbad
    obtain ⟨other, -, rfl⟩ := List.mem_map.1 hv
    have hzero := (foundIn_eq_some.1 hbad).2
    rw [Record.ofSector_zero] at hzero
    cases hzero
  · intro set l hbad
    have hlead := (foundIn_eq_some.1 hbad).2
    rw [Staging.leadWrite, Record.ofSector_record] at hlead
    cases hlead
  · intro c hc kept v hv hbad
    exact hold c hc (key_of_backup hv hbad).symm

/-- **The records do not cohere while a new cycle has no backup record**: of a directory that has met
no failure, after the identity record of a cycle has been written that none of its cycles is. -/
theorem Mirrored.not_coherent {config : Configuration} {d : Directory} {store : Store}
    (h : Mirrored config d) (hmirrors : store.Mirrors d.catalog) {old : List FileCycle}
    {new : FileCycle} (hkey : new.item.key.stored = new.item.key)
    (hold : ∀ c ∈ old, c.item.key.stored ≠ new.item.key)
    (hcatalog : ∀ set ∈ d.catalog.sets, ∀ c ∈ set.cycles, c.item.key ≠ new.item.key)
    {before : List Write} {sector : Nat}
    (hbefore : ∀ {P : Write → Prop}, (∀ sectors, ∀ w ∈ Staging.clearing sectors, P w) →
      (∀ set l, P (Staging.leadWrite set l)) →
      (∀ c ∈ old, ∀ kept, ∀ w ∈ Staging.recording c.file (store.shown c) kept, P w) →
      ∀ w ∈ before, P w) :
    ¬ Coherent (replay (ledger store.device.copy)
      (before ++ [⟨sector, (store.shown new).identityRecord, some new.file⟩])) := by
  intro hcoherent
  have hself : (⟨sector, .main (store.shown new).stored⟩ : Found) ∈ replay (ledger store.device.copy)
      (before ++ [⟨sector, (store.shown new).identityRecord, some new.file⟩]) := by
    unfold replay
    rw [List.foldl_append]
    exact mem_overwrite.2 (Or.inl (foundIn_eq_some.2 ⟨rfl, Record.ofSector_identityRecord _⟩))
  obtain ⟨⟨key, info, at'⟩, hbackup, heq⟩ :=
    hcoherent.complete.backup _ (mem_mains.2 hself)
  have hnew : key = new.item.key := heq.trans hkey
  subst hnew
  rcases mem_replay (mem_backups.1 hbackup) with hin | ⟨w, hw, hfound⟩
  · obtain ⟨set, hset, c, hc, hsame⟩ := h.exists_of_backup hmirrors hin
    exact hcatalog set hset c hc hsame
  · rcases List.mem_append.1 hw with hw | hw
    · exact backup_notMem_of_before hold hbefore w hw hfound
    · rw [List.mem_singleton.1 hw] at hfound
      have hmain := (foundIn_eq_some.1 hfound).2
      rw [Record.ofSector_identityRecord] at hmain
      cases hmain

/-- A creation goes into the file set of its name if there is one. -/
theorem eq_of_setFor {c : Catalog} (hc : c.Indexed) {r : Creation} {client : Client} {set : FileSet}
    (h : c.setFor r client = .ok set) {t : FileSet} (ht : t ∈ c.sets) (hname : t.name = r.name) :
    t = set := by
  have hfind := (Catalog.find?_eq_some_iff hc.ordered).2 ⟨ht, hname⟩
  rcases Catalog.find?_of_setFor h with ⟨hsome, -⟩ | ⟨hnone, -⟩
  · exact Option.some.inj (hfind.symm.trans hsome)
  · cases hfind.symm.trans hnone

/-- An operation that is carried out without a complaint had room for its records. -/
theorem room_of_perform {α : Type} {d : Directory} {store : Store} (hstore : d.store = some store)
    {change : Change α} {answer : α} (h : (d.perform (.ok change)).1 = .ok answer) :
    (store.stage change.touched (change.catalog.find? change.touched)).2.shortages = [] :=
  (Store.report_eq_none.1 (trouble_of_perform hstore h)).2

/-- A creation puts a cycle behind those of its file set, and the key of the cycle, which is fit to be
recorded, is that of no other one. -/
theorem Mirrored.exists_created {config : Configuration} (hconfig : config.defaultMaxRange < 2 ^ 18)
    {d : Directory} (h : Mirrored config d) {call : Call} {r : Creation}
    (hr : Catalog.WellFormed d.catalog.config r) {change : Change FileId}
    (hcreate : d.catalog.create call r = .ok change) :
    ∃ (after : FileSet) (old : List FileCycle) (new : FileCycle),
      change.catalog.find? change.touched = some after ∧ after.cycles = old ++ [new] ∧
      new.item.key.stored = new.item.key ∧ (∀ c ∈ old, c.item.key.stored ≠ new.item.key) ∧
      ∀ set ∈ d.catalog.sets, ∀ c ∈ set.cycles, c.item.key ≠ new.item.key := by
  obtain ⟨set, number, newest, regions, space, hset, hnumber, htracks, hspace, rfl⟩ :=
    Catalog.create_eq_ok hcreate
  have hname : set.name = r.name := Catalog.setFor_eq_ok hset
  have hrecordable := (Catalog.Step.enter hr hset hnumber htracks hspace).recordableSet h.recordable
    h.indexed (h.config_eq.symm ▸ hconfig)
  obtain ⟨new, hnew⟩ : ∃ new, r.fileCycle set.lead number ⟨d.catalog.lastFile + 1⟩ call regions =
    new := ⟨_, rfl⟩
  obtain ⟨after, hafter⟩ : ∃ after : FileSet, FileSet.refresh {
      lead := if newest then { set.lead with highest := number } else set.lead
      cycles := set.cycles ++ [r.fileCycle set.lead number ⟨d.catalog.lastFile + 1⟩ call regions] } =
    after := ⟨_, rfl⟩
  have hcycles : after.cycles = set.cycles ++ [new] := by rw [← hafter, ← hnew]; rfl
  have hafterName : after.name = r.name := by
    rw [← hafter, FileSet.name_refresh, ← hname]
    cases newest <;> rfl
  unfold Catalog.enter
  dsimp only
  rw [hafter] at hrecordable ⊢
  have hin : ∀ c, c ∈ set.cycles ∨ c = new → c ∈ after.cycles := by
    intro c hc
    rw [hcycles]
    exact List.mem_append.2 (hc.imp_right List.mem_singleton.2)
  -- the set is fit to be recorded with the new cycle, so its keys are distinct
  have hdistinct : ∀ c ∈ set.cycles, c.item.key ≠ new.item.key := by
    have hkeys := hrecordable.keys
    rw [hcycles, List.map_append, List.nodup_append] at hkeys
    intro c hc
    exact hkeys.2.2 _ (List.mem_map_of_mem hc) _ (List.mem_singleton_self _)
  refine ⟨after, set.cycles, new, ?_, hcycles, (hrecordable.items new (hin new (Or.inr rfl))).key,
    ?_, ?_⟩
  · rw [Catalog.find?_put (c := { d.catalog with
        space := space, lastFile := d.catalog.lastFile + 1 }) h.indexed.ordered after r.name,
      if_pos hafterName.symm, if_neg]
    rw [hcycles]
    exact List.append_ne_nil_of_right_ne_nil _ (List.cons_ne_nil _ _)
  · intro c hc
    rw [(hrecordable.items c (hin c (Or.inl hc))).key]
    exact hdistinct c hc
  · intro t ht c hc hsame
    -- a cycle of the same key would be in the set of the name, which is the one that grows
    have hkey : new.item.key.set = r.name := by
      rw [← hnew, Catalog.key_fileCycle]
      exact hname
    have htname : t.name = r.name := by
      rw [← h.indexed.named t ht c hc, hsame, hkey]
    obtain rfl := eq_of_setFor h.indexed hset ht htname
    exact hdistinct c hc hsame

/-- **Every creation can be stopped so that recovery refuses the medium**, right after the identity
record of the new cycle has been written. -/
theorem Mirrored.refuses_create {config : Configuration} (hconfig : config.defaultMaxRange < 2 ^ 18)
    {d : Directory} {store : Store} (h : Mirrored config d) (hlegible : d.Legible)
    (hstore : d.store = some store) (hmirrors : store.Mirrors d.catalog) {call : Call} {r : Creation}
    (hr : Catalog.WellFormed d.catalog.config r) {outcome : Except Failure (Change FileId)}
    (hcreate : d.catalog.create call r = outcome) {file : FileId}
    (hanswer : (d.perform outcome).1 = .ok file) :
    ∃ k ≤ (d.journal outcome).length, ∀ e,
      (recover config (cut store.device (d.journal outcome) k)).1 ≠ .ok e := by
  cases outcome with
  | error f => cases hanswer
  | ok change =>
      obtain ⟨after, old, new, hfind, hcycles, hfits, hold, hcatalog⟩ :=
        h.exists_created hconfig hr hcreate
      have hsuits := (hlegible.perform (.ok change) fun _ hchange =>
        Catalog.steps_create hr (hcreate.trans hchange)).1
      obtain ⟨-, other, hother, -, hreadable⟩ := hlegible
      obtain rfl := Option.some.inj (hother.symm.trans hstore)
      have hroom := room_of_perform hother hanswer
      rw [hfind] at hroom
      obtain ⟨before, sector, rest, hwrites, hbefore⟩ := Store.writes_enter hcycles hroom
      have hjournal : d.journal (.ok change) =
          before ++ ⟨sector, (other.shown new).identityRecord, some new.file⟩ :: rest := by
        unfold journal
        rw [hother]
        dsimp only
        rw [hfind]
        exact hwrites
      rw [hjournal] at hsuits ⊢
      have hws : ∀ w ∈ before ++ ⟨sector, (other.shown new).identityRecord, some new.file⟩ :: rest,
          w.Legible ∧ w.sector < other.device.sectorCount := by
        intro w hw
        refine ⟨(hsuits w hw).1, (hsuits w hw).2 _ ?_⟩
        rw [device?, hother]
        rfl
      -- the identity record is the last that is written
      refine ⟨before.length + 1, ?_, ?_⟩
      · rw [List.length_append, List.length_cons]
        omega
      · intro e he
        have hcut := (recovers_cut_iff config hreadable hws (before.length + 1)).1 ⟨e, he, rfl⟩
        have htake : (before ++ ⟨sector, (other.shown new).identityRecord, some new.file⟩ ::
            rest).take (before.length + 1) =
              before ++ [⟨sector, (other.shown new).identityRecord, some new.file⟩] := by
          rw [List.take_length_add_append]
          rfl
        rw [htake] at hcut
        exact h.not_coherent hmirrors hfits hold hcatalog
          (fun hclear hlead hrecord => hbefore hclear (hlead after) hrecord) hcut.1

/-- **Every tape or disk file that is created can be stopped on the way so that recovery refuses the
medium**: after every history without an error of the medium, a request that creates a cycle and
succeeds has a number of first sector writes with which no directory is recovered from the image. -/
theorem creation_refused {config : Configuration} (hrange : config.defaultMaxRange < 2 ^ 18)
    {device : Device} {d : Directory} (hformat : format config device = .ok d)
    {history : List (Call × Request)} (hquiet : d.Quiet history) (htold : d.Told history)
    {call : Call} {r : Request}
    (hr : (∃ tape, r = .createTape tape) ∨ ∃ disk, r = .createDisk disk) {reply : Reply}
    (hreply : ((d.after history).handle call r).1 = .ok reply) :
    ∃ store, (d.after history).store = some store ∧
      ∃ k ≤ ((d.after history).writes call r).length, ∀ e,
        (recover config (cut store.device ((d.after history).writes call r) k)).1 ≠ .ok e := by
  have hmirrored := mirrored_after hrange hformat hquiet htold
  have hlegible := legible_after hformat history
  obtain ⟨store, hstore, hmirrors⟩ := hmirrored.mirrors
  refine ⟨store, hstore, ?_⟩
  have hanswered : ∀ outcome : Except Failure FileId × Directory,
      (replied .file outcome).1 = .ok reply → ∃ file, outcome.1 = .ok file := by
    rintro ⟨answer, _⟩ h
    cases answer with
    | error f => cases h
    | ok file => exact ⟨file, rfl⟩
  rcases hr with ⟨tape, rfl⟩ | ⟨disk, rfl⟩
  · obtain ⟨file, hanswer⟩ := hanswered _ hreply
    unfold createTape at hanswer
    unfold writes trace
    dsimp only
    cases houtcome : (d.after history).catalog.createTape call tape with
    | error f =>
        rw [houtcome] at hanswer
        cases hanswer
    | ok change =>
        obtain ⟨creation, hwell, -, -, -, -, -, hcreate⟩ := Catalog.createTape_eq_ok houtcome
        rw [houtcome] at hanswer
        exact hmirrored.refuses_create hrange hlegible hstore hmirrors hwell hcreate hanswer
  · obtain ⟨file, hanswer⟩ := hanswered _ hreply
    unfold createDisk at hanswer
    unfold writes trace
    dsimp only
    cases houtcome : (d.after history).catalog.createDisk call disk with
    | error f =>
        rw [houtcome] at hanswer
        cases hanswer
    | ok change =>
        obtain ⟨creation, hwell, -, -, -, -, -, hcreate⟩ := Catalog.createDisk_eq_ok houtcome
        rw [houtcome] at hanswer
        exact hmirrored.refuses_create hrange hlegible hstore hmirrors hwell hcreate hanswer

theorem creation_refused_oneDisk :
    ∃ d, format {} { medium := .ofSectorCount 4 } = .ok d ∧
      ∃ store, (d.after []).store = some store ∧
        ∃ k ≤ ((d.after []).writes diskCall (.createDisk diskRequest)).length, ∀ e,
          (recover {} (cut store.device
            ((d.after []).writes diskCall (.createDisk diskRequest)) k)).1 ≠ .ok e := by
  obtain ⟨d, hformat, hreply⟩ := handle_diskRequest
  exact ⟨d, hformat, creation_refused (by decide) hformat (show d.Quiet [] from trivial)
    (show d.Told [] from trivial) (Or.inr ⟨diskRequest, rfl⟩) hreply⟩

end Directory

end FileDirectory
