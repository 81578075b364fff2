/-
**A medium is an array of sectors.**

Whatever has been read and written, in whatever order and with whatever failures in between, each sector
holds what was last written to it with success.  Neighbouring sectors share no byte of the image, so
writing one of them leaves the others alone, and what fails leaves everything alone.

Main definitions:

* `FileDirectory.Medium.Access`, `FileDirectory.Medium.access` — what can be done with a medium, and
  what comes of it;
* `FileDirectory.Medium.after`, `FileDirectory.Medium.history` — runs of accesses;
* `FileDirectory.Medium.successes`, `FileDirectory.Medium.lastWritten` — the sectors written in a run,
  and what was written to one of them last;
* `FileDirectory.Medium.ActsAsArray` — what is expected of a medium after a run.

Main results:

* `FileDirectory.Medium.readSector_eq`, `FileDirectory.Medium.writeSector_eq` — what the transfers
  between words and bytes come to;
* `FileDirectory.Medium.access_cases` — all that an access can do;
* `FileDirectory.Medium.read_access`, `FileDirectory.Medium.read_after` — the contents of a sector after
  an access and after a run;
* `FileDirectory.Medium.actsAsArray_of_new` — every run on every new medium.
-/

import FileDirectory.Proofs.Medium.Sectors
import FileDirectory.Proofs.Packed.Transfer

set_option autoImplicit false

namespace FileDirectory

/-- An array that is overwritten from end to end. -/
theorem overlay_full {α : Type} {dst : Array α} {xs : List α} (h : xs.length = dst.size) :
    overlay dst 0 xs = xs.toArray := by
  refine Array.ext_getElem? fun i => ?_
  rw [getElem?_overlay _ _ _ _ (by omega)]
  by_cases hi : i < xs.length
  · simp [hi]
  · have hsize : dst.size ≤ i := by omega
    simp [hi, hsize]

namespace Medium

/-! ### Accesses through the transfers -/

section Transfers

open Packed

variable {m : Medium} {sector : Nat}

theorem byteLength_sectorWords : byteLength sectorWords = sectorBytes := rfl

/-- There are twenty-eight words in the bytes of a sector. -/
theorem length_unpackAll_sector (h : sector < m.sectorCount) :
    (unpackAll (slice m.bytes (sector * sectorBytes) sectorBytes)).length = sectorWords := by
  rw [length_unpackAll, length_slice (sector_fits h)]
  rfl

/-- A sector that there is reads as the words of its bytes. -/
theorem exists_initial (h : sector < m.sectorCount) :
    ∃ initial : Sector, decode (slice m.bytes (sector * sectorBytes) sectorBytes) = .ok initial.toList ∧
      m.read sector = .ok initial := by
  have hlength := length_unpackAll_sector h
  have hwhole : (slice m.bytes (sector * sectorBytes) sectorBytes).length % 9 = 0 := by
    rw [length_slice (sector_fits h)]
    rfl
  refine ⟨⟨(unpackAll (slice m.bytes (sector * sectorBytes) sectorBytes)).toArray, hlength⟩, ?_, ?_⟩
  · rw [decode, if_pos hwhole]
    rfl
  · rw [read_eq_slice h, ← Sector.ofWords_toList (Vector.mk _ hlength)]
    rfl

/-- The bytes of a sector lie inside an image whose end can be told. -/
theorem inside_sector (hsize : m.bytes.size ≤ maxBytes) (h : sector < m.sectorCount) :
    Part.Inside ⟨.bytes, sector * sectorBytes, sectorBytes, m.bytes.size⟩ :=
  ⟨Nat.le_trans (sector_fits h) hsize, sector_fits h⟩

theorem inside_buffer : Part.Inside ⟨.words, 0, sectorWords, sectorWords⟩ := by decide

/-- Unpacking a sector into a buffer of its size. -/
theorem unpacking_sector (hsize : m.bytes.size ≤ maxBytes) (h : sector < m.sectorCount) :
    (unpacking m.bytes (sector * sectorBytes) sectorWords 0).into (Array.replicate sectorWords 0) =
      (.ok sectorBytes,
        (unpackAll (slice m.bytes (sector * sectorBytes) sectorBytes)).toArray) := by
  have hbuffer : Part.Inside ⟨.words, 0, sectorWords, (Array.replicate sectorWords (0 : Word)).size⟩ := by
    rw [Array.size_replicate]
    exact inside_buffer
  have hlength := length_unpackAll_sector h
  rw [into_unpacking, byteLength_sectorWords, outcome_of_inside rfl (inside_sector hsize h) hbuffer,
    byteLength_sectorWords, overlay_full (by rw [hlength, Array.size_replicate])]

/-- Packing a sector into its place in the image. -/
theorem packing_sector (hsize : m.bytes.size ≤ maxBytes) (h : sector < m.sectorCount)
    (content : Sector) :
    (packing content.toArray 0 sectorWords (sector * sectorBytes)).into m.bytes =
      (.ok sectorBytes, (m.put sector content).bytes) := by
  have hbuffer : Part.Inside ⟨.words, 0, sectorWords, content.toArray.size⟩ := by
    rw [Vector.size_toArray]
    exact inside_buffer
  have hcontent : slice content.toArray 0 sectorWords = content.toList := by
    rw [slice_eq_take_drop, List.drop_zero, Vector.toList_toArray,
      List.take_of_length_le (Nat.le_of_eq Vector.length_toList)]
  rw [into_packing, byteLength_sectorWords, outcome_of_inside rfl hbuffer (inside_sector hsize h), hcontent]
  rfl

/-- **Reading through a buffer** yields the words of the sector in the image. -/
theorem readSector_eq (hsize : m.bytes.size ≤ maxBytes) (sector : Nat) :
    m.readSector sector = m.read sector := by
  by_cases h : sector < m.sectorCount
  · have hlength := length_unpackAll_sector h
    rw [readSector, if_pos h, read_eq_slice h]
    simp only [unpacking_sector hsize h, List.size_toArray, hlength, dif_pos]
    rw [← Sector.ofWords_toList (Vector.mk _ hlength)]
    rfl
  · rw [readSector, read, if_neg h, if_neg h]

/-- **Writing through the image** replaces the sector, if it is not refused. -/
theorem writeSector_eq (hsize : m.bytes.size ≤ maxBytes) (sector : Nat) (content : Sector) :
    m.writeSector sector content =
      match m.refusal? sector with
      | some e => (.error e, m)
      | none => (.ok (), m.put sector content) := by
  rw [writeSector]
  cases hrefused : m.refusal? sector with
  | some e => rfl
  | none =>
      have h := (refusal?_eq_none.1 hrefused).1
      simp only [packing_sector hsize h]
      rfl

end Transfers

/-! ### Runs of accesses -/

/-- What can be done with a medium. -/
inductive Access where
  | read (sector : Nat)
  | write (sector : Nat) (content : Sector)
  /-- Lets every write fail from now on, or no longer. -/
  | failWrites (fail : Bool)

/-- What comes of an access; only a read yields a sector. -/
abbrev Answer := Except MediumError (Option Sector)

/-- The answer to an access, and what is left of the medium. -/
def access (m : Medium) : Access → Answer × Medium
  | .read sector => ((m.readSector sector).map some, m)
  | .write sector content =>
    let (answer, left) := m.writeSector sector content
    (answer.map fun _ => none, left)
  | .failWrites fail => (.ok none, { m with failWrites := fail })

/-- The medium after a run of accesses. -/
def after (m : Medium) : List Access → Medium
  | [] => m
  | a :: as => (m.access a).2.after as

/-- The accesses of a run with what came of them. -/
def history (m : Medium) : List Access → List (Access × Answer)
  | [] => []
  | a :: as => (a, (m.access a).1) :: (m.access a).2.history as

/-- The writes of a history that succeeded, in order. -/
def successes (past : List (Access × Answer)) : List (Nat × Sector) :=
  past.filterMap fun
    | (.write sector content, .ok _) => some (sector, content)
    | _ => none

/-- What was last written to a sector with success. -/
def lastWritten (sector : Nat) (past : List (Access × Answer)) : Option Sector :=
  (successes past).reverse.lookup sector

/-- Whether writes were last told to fail. -/
def lastTold (past : List (Access × Answer)) : Option Bool :=
  past.reverse.findSome? fun
    | (.failWrites fail, _) => some fail
    | _ => none

@[simp] theorem after_nil (m : Medium) : m.after [] = m := rfl

@[simp] theorem after_cons (m : Medium) (a : Access) (as : List Access) :
    m.after (a :: as) = (m.access a).2.after as := rfl

@[simp] theorem history_nil (m : Medium) : m.history [] = [] := rfl

@[simp] theorem history_cons (m : Medium) (a : Access) (as : List Access) :
    m.history (a :: as) = (a, (m.access a).1) :: (m.access a).2.history as := rfl

@[simp] theorem successes_nil : successes [] = [] := rfl

theorem successes_cons (step : Access × Answer) (past : List (Access × Answer)) :
    successes (step :: past) = successes [step] ++ successes past := by
  rw [successes, ← List.singleton_append, List.filterMap_append, ← successes, ← successes]

theorem lastWritten_cons (sector : Nat) (step : Access × Answer) (past : List (Access × Answer)) :
    lastWritten sector (step :: past) =
      (lastWritten sector past).or (lastWritten sector [step]) := by
  rw [lastWritten, successes_cons, List.reverse_append, List.lookup_append, lastWritten, lastWritten]

theorem lastTold_cons (step : Access × Answer) (past : List (Access × Answer)) :
    lastTold (step :: past) = (lastTold past).or (lastTold [step]) := by
  rw [lastTold, List.reverse_cons, List.findSome?_append, lastTold, lastTold, List.reverse_singleton]

/-! ### One access -/

section Access

variable {m : Medium} (hsize : m.bytes.size ≤ maxBytes)

include hsize

theorem access_read (sector : Nat) :
    m.access (.read sector) = ((m.read sector).map some, m) := by
  rw [access, readSector_eq hsize]

theorem access_write_of_refused {sector : Nat} {e : MediumError} (h : m.refusal? sector = some e)
    (content : Sector) : m.access (.write sector content) = (.error e, m) := by
  rw [access, writeSector_eq hsize, h]
  rfl

theorem access_write {sector : Nat} (h : m.refusal? sector = none) (content : Sector) :
    m.access (.write sector content) = (.ok none, m.put sector content) := by
  rw [access, writeSector_eq hsize, h]
  rfl

/-- **All that an access can do**: it replaces a sector, tells writes how to behave, or changes
nothing. -/
theorem access_cases (a : Access) :
    (∃ sector content, a = .write sector content ∧ sector < m.sectorCount ∧
      m.access a = (.ok none, m.put sector content)) ∨
    (∃ fail, a = .failWrites fail ∧ m.access a = (.ok none, { m with failWrites := fail })) ∨
    ((m.access a).2 = m ∧ successes [(a, (m.access a).1)] = [] ∧
      lastTold [(a, (m.access a).1)] = none) := by
  cases a with
  | read sector =>
      rw [access_read hsize]
      exact Or.inr (Or.inr ⟨rfl, rfl, rfl⟩)
  | write sector content =>
      cases hrefused : m.refusal? sector with
      | some e =>
          rw [access_write_of_refused hsize hrefused]
          exact Or.inr (Or.inr ⟨rfl, rfl, rfl⟩)
      | none =>
          exact Or.inl ⟨sector, content, rfl, (refusal?_eq_none.1 hrefused).1,
            access_write hsize hrefused content⟩
  | failWrites fail => exact Or.inr (Or.inl ⟨fail, rfl, rfl⟩)

/-- An access that fails changes nothing. -/
theorem access_eq_error {a : Access} {e : MediumError} {left : Medium}
    (h : m.access a = (.error e, left)) : left = m := by
  rcases access_cases hsize a with ⟨sector, content, -, -, hwrite⟩ | ⟨fail, -, htold⟩ | ⟨hsame, -⟩
  · cases hwrite.symm.trans h
  · cases htold.symm.trans h
  · rwa [h] at hsame

/-- An access leaves the size of the image as it is. -/
theorem size_access (a : Access) : (m.access a).2.bytes.size = m.bytes.size := by
  rcases access_cases hsize a with ⟨sector, content, -, -, hwrite⟩ | ⟨fail, -, htold⟩ | ⟨hsame, -⟩
  · rw [hwrite]
    exact size_overlay ..
  · rw [htold]
  · rw [hsame]

/-- **One access and a sector.**  The sector holds what the access has written to it with success, and
otherwise what it held. -/
theorem read_access (a : Access) {sector : Nat} {held : Sector} (h : m.read sector = .ok held) :
    (m.access a).2.read sector =
      .ok ((lastWritten sector [(a, (m.access a).1)]).getD held) := by
  rcases access_cases hsize a with ⟨other, content, rfl, hother, hwrite⟩ | ⟨fail, rfl, htold⟩ |
    ⟨hsame, hnone, -⟩
  · rw [hwrite]
    by_cases hsector : sector = other
    · subst hsector
      simp [read_put_self content hother, lastWritten, successes]
    · have hne : (sector == other) = false := beq_eq_false_iff_ne.2 hsector
      simp [read_put_of_ne content hother hsector, h, lastWritten, successes, List.lookup_cons, hne]
  · rw [htold]
    exact h
  · rw [hsame, h, lastWritten, hnone]
    rfl

/-- The writes that succeed are counted. -/
theorem writes_access (a : Access) :
    (m.access a).2.writes = m.writes + (successes [(a, (m.access a).1)]).length := by
  rcases access_cases hsize a with ⟨sector, content, rfl, -, hwrite⟩ | ⟨fail, rfl, htold⟩ |
    ⟨hsame, hnone, -⟩
  · rw [hwrite]
    rfl
  · rfl
  · rw [hsame, hnone]
    rfl

/-- Writes behave as they were last told to. -/
theorem failWrites_access (a : Access) :
    (m.access a).2.failWrites = (lastTold [(a, (m.access a).1)]).getD m.failWrites := by
  rcases access_cases hsize a with ⟨sector, content, rfl, -, hwrite⟩ | ⟨fail, rfl, htold⟩ |
    ⟨hsame, -, hnone⟩
  · rw [hwrite]
    rfl
  · rfl
  · rw [hsame, hnone]
    rfl

end Access

/-! ### Whole runs -/

section Runs

variable {m : Medium} (hsize : m.bytes.size ≤ maxBytes) (accesses : List Access)

include hsize

/-- A run leaves the size of the image as it is. -/
theorem size_after : (m.after accesses).bytes.size = m.bytes.size := by
  induction accesses generalizing m with
  | nil => rfl
  | cons a as ih =>
      have hstep := size_access hsize a
      rw [after_cons, ih (hstep ▸ hsize), hstep]

/-- **A whole run and a sector.**  The sector holds what was last written to it with success, and
otherwise what it held. -/
theorem read_after {sector : Nat} {held : Sector} (h : m.read sector = .ok held) :
    (m.after accesses).read sector =
      .ok ((lastWritten sector (m.history accesses)).getD held) := by
  induction accesses generalizing m held with
  | nil => exact h
  | cons a as ih =>
      rw [after_cons, history_cons, lastWritten_cons, Option.getD_or]
      exact ih (size_access hsize a ▸ hsize) (read_access hsize a h)

/-- All writes that succeeded have been counted. -/
theorem writes_after :
    (m.after accesses).writes = m.writes + (successes (m.history accesses)).length := by
  induction accesses generalizing m with
  | nil => rfl
  | cons a as ih =>
      rw [after_cons, history_cons, successes_cons, List.length_append,
        ih (size_access hsize a ▸ hsize), writes_access hsize a, Nat.add_assoc]

theorem failWrites_after :
    (m.after accesses).failWrites = (lastTold (m.history accesses)).getD m.failWrites := by
  induction accesses generalizing m with
  | nil => rfl
  | cons a as ih =>
      rw [after_cons, history_cons, lastTold_cons, Option.getD_or, ih (size_access hsize a ▸ hsize),
        failWrites_access hsize a]

end Runs

/-! ### What is expected of a medium -/

/-- **An array of sectors.**  A medium was `start`, has been through the accesses `past` and is `now`
what is left of it.  Every sector that there is reads as what was last written to it with success, or as
the words of its bytes in the image at the start.  Writing one replaces its bytes in the image and no
others.  What fails, be it for want of the sector or because writes are to fail, changes nothing.  The
writes that succeeded have been counted, and the image on a medium of its own has the same contents. -/
structure ActsAsArray (start : Medium) (past : List (Access × Answer)) (now : Medium) : Prop where
  sectorCount_eq : now.sectorCount = start.sectorCount
  reads : ∀ sector < start.sectorCount, ∃ initial : Sector,
    Packed.decode (slice start.bytes (sector * 126) 126) = .ok initial.toList ∧
    now.access (.read sector) = (.ok (some ((lastWritten sector past).getD initial)), now)
  replaces : ∀ sector content, sector < start.sectorCount → now.failWrites = false →
    ∃ left packed, now.access (.write sector content) = (.ok none, left) ∧
      Packed.encode content.toList = .ok packed ∧ packed.length = 126 ∧
      Overwritten now.bytes (sector * 126) packed left.bytes
  refuses : ∀ sector content, sector < start.sectorCount → now.failWrites = true →
    now.access (.write sector content) = (.error (.writeFailed sector), now)
  ends : ∀ sector, start.sectorCount ≤ sector →
    now.access (.read sector) = (.error (.noSuchSector sector start.sectorCount), now) ∧
    ∀ content, now.access (.write sector content) =
      (.error (.noSuchSector sector start.sectorCount), now)
  keeps : ∀ a e left, now.access a = (.error e, left) → left = now
  counts : now.writes = (successes past).length
  told : now.failWrites = (lastTold past).getD false
  copies : ∃ copy, ofImage now.bytes = .ok copy ∧ copy.bytes = now.bytes ∧
    ∀ sector, copy.readSector sector = now.readSector sector

/-- Every run on a medium that has not been written yet. -/
theorem actsAsArray {start : Medium} (hsize : start.bytes.size ≤ maxBytes)
    (hwhole : start.bytes.size % sectorBytes = 0) (hwrites : start.writes = 0)
    (hfail : start.failWrites = false) (accesses : List Access) :
    ActsAsArray start (start.history accesses) (start.after accesses) := by
  have hsame := size_after hsize accesses
  have hafter : (start.after accesses).bytes.size ≤ maxBytes := hsame ▸ hsize
  have hcount : (start.after accesses).sectorCount = start.sectorCount := by
    rw [sectorCount, sectorCount, hsame]
  constructor
  case sectorCount_eq => exact hcount
  case reads =>
    intro sector hsector
    obtain ⟨initial, hinitial, hread⟩ := exists_initial hsector
    refine ⟨initial, hinitial, ?_⟩
    rw [access_read hafter, read_after hsize accesses hread]
    rfl
  case replaces =>
    intro sector content hsector htold
    rw [← hcount] at hsector
    refine ⟨_, Packed.packAll content.toList,
      access_write hafter (refusal?_eq_none.2 ⟨hsector, htold⟩) content, ?_,
      length_packed_sector content, overwritten_put content hsector⟩
    rw [Packed.encode, Vector.length_toList]
    rfl
  case refuses =>
    intro sector content hsector htold
    rw [← hcount] at hsector
    refine access_write_of_refused hafter ?_ content
    rw [refusal?, if_pos hsector, if_pos htold]
  case ends =>
    intro sector hsector
    rw [← hcount] at hsector ⊢
    refine ⟨?_, fun content => access_write_of_refused hafter ?_ content⟩
    · rw [access_read hafter, read_of_ge hsector]
      rfl
    · rw [refusal?, if_neg (Nat.not_lt.2 hsector)]
  case keeps => exact fun a e left h => access_eq_error hafter h
  case counts => rw [writes_after hsize, hwrites, Nat.zero_add]
  case told => rw [failWrites_after hsize, hfail]
  case copies => exact ⟨_, if_pos (hsame ▸ hwhole), rfl, fun sector => rfl⟩

theorem sectorCount_ofSectorCount {count : Nat} (h : count * sectorBytes ≤ maxBytes) :
    (ofSectorCount count).sectorCount = count := by
  rw [sectorCount, ofSectorCount, if_pos h, Array.size_replicate]
  exact Nat.mul_div_cancel count (by decide)

/-- A medium of free sectors has an image whose end can be told, of whole sectors. -/
theorem size_ofSectorCount (count : Nat) :
    (ofSectorCount count).bytes.size ≤ maxBytes ∧
      (ofSectorCount count).bytes.size % sectorBytes = 0 := by
  rw [ofSectorCount, Array.size_replicate]
  by_cases h : count * sectorBytes ≤ maxBytes
  · rw [if_pos h]
    exact ⟨h, Nat.mul_mod_left count sectorBytes⟩
  · rw [if_neg h]
    exact ⟨Nat.zero_le _, Nat.zero_mod _⟩

/-- Free sectors are zero. -/
theorem readSector_ofSectorCount {count sector : Nat} (h : count * sectorBytes ≤ maxBytes)
    (hsector : sector < count) : (ofSectorCount count).readSector sector = .ok .zero := by
  have hcount : sector < (ofSectorCount count).sectorCount := by rwa [sectorCount_ofSectorCount h]
  have hfree : slice (ofSectorCount count).bytes (sector * sectorBytes) sectorBytes =
      List.replicate sectorBytes 0 := by
    refine List.eq_replicate_iff.2 ⟨length_slice (sector_fits hcount), fun b hb => ?_⟩
    rw [slice_eq_take_drop, ofSectorCount, Array.toList_replicate] at hb
    exact List.eq_of_mem_replicate (List.mem_of_mem_drop (List.mem_of_mem_take hb))
  rw [readSector_eq (size_ofSectorCount count).1, read_eq_slice hcount, hfree]
  rfl

/-- **Every new medium acts as an array of sectors**, in every run of accesses: one of free sectors,
which are zero, and one of any image of whole sectors.  No image has more than `maxBytes` bytes. -/
theorem actsAsArray_of_new :
    (∀ count, count * 126 ≤ maxBytes → (ofSectorCount count).sectorCount = count ∧
      ∀ sector < count, (ofSectorCount count).readSector sector = .ok .zero) ∧
    (∀ count accesses, ActsAsArray (ofSectorCount count) ((ofSectorCount count).history accesses)
      ((ofSectorCount count).after accesses)) ∧
    ∀ image : Array UInt8, image.size ≤ maxBytes → image.size % 126 = 0 →
      ∃ start, ofImage image = .ok start ∧ start.bytes = image ∧
        start.sectorCount = image.size / 126 ∧
        ∀ accesses, ActsAsArray start (start.history accesses) (start.after accesses) := by
  refine ⟨fun count h => ?_, fun count accesses => ?_, fun image hsize hwhole => ?_⟩
  · exact ⟨sectorCount_ofSectorCount h, fun sector hsector => readSector_ofSectorCount h hsector⟩
  · obtain ⟨hsize, hwhole⟩ := size_ofSectorCount count
    exact actsAsArray hsize hwhole rfl rfl accesses
  · exact ⟨{ bytes := image }, if_pos hwhole, rfl, rfl, actsAsArray hsize hwhole rfl rfl⟩

/-- Three free sectors, one of which is written, and an image of two. -/
theorem actsAsArray_of_new_three :
    ((ofSectorCount 3).sectorCount = 3 ∧
      ∀ sector < 3, (ofSectorCount 3).readSector sector = .ok .zero) ∧
    ActsAsArray (ofSectorCount 3)
      ((ofSectorCount 3).history [.write 1 (.ofWords [7]), .failWrites true, .write 1 .zero, .read 3])
      ((ofSectorCount 3).after [.write 1 (.ofWords [7]), .failWrites true, .write 1 .zero, .read 3]) ∧
    ∃ start, ofImage (Array.replicate 252 0xFF) = .ok start ∧
      start.bytes = Array.replicate 252 0xFF ∧
      start.sectorCount = (Array.replicate 252 (0xFF : UInt8)).size / 126 ∧
      ∀ accesses, ActsAsArray start (start.history accesses) (start.after accesses) :=
  ⟨actsAsArray_of_new.1 3 (by decide), actsAsArray_of_new.2.1 3 _,
    actsAsArray_of_new.2.2 _ (by rw [Array.size_replicate]; decide) (by rw [Array.size_replicate])⟩

/-- A write that fails is none. -/
example :
    successes ((ofSectorCount 1).history
      [.write 0 (.ofWords [7]), .failWrites true, .write 0 .zero]) = [(0, .ofWords [7])] := by
  decide +kernel

end Medium

end FileDirectory
