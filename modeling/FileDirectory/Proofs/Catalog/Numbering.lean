/-
**The number of a new cycle.**

Cycle numbers go round a circle of 999.  A new cycle of a file set either takes a number that its
window leaves free, or one beyond the highest, up to which the window moves.  Which of the two it is
follows from the age that the number would have.

Main definitions:

* `FileDirectory.FileSet.Chosen` — the ways in which a new cycle gets its number.

Main results:

* `FileDirectory.Cycle.age_add_ahead`, `FileDirectory.Cycle.age_of_ahead` — ages as seen from a
  higher cycle;
* `FileDirectory.FileSet.currentRange_le_iff` — the window spans all ages;
* `FileDirectory.FileSet.chosen_of_chooseNew` — a number that is chosen comes about in one of these
  ways;
* `FileDirectory.Catalog.chooseNew_spec` — it is a cycle number that is new to the set.
-/

import FileDirectory.Proofs.Catalog.Step

set_option autoImplicit false

namespace FileDirectory

/-! ### Around the circle -/

namespace Cycle

variable {highest number cycle other : Nat}

/-- The way down and the way up to another number make up the circle. -/
theorem age_add_ahead (hhighest : 1 ≤ highest ∧ highest ≤ highestNumber)
    (hnumber : 1 ≤ number ∧ number ≤ highestNumber) (hne : number ≠ highest) :
    age highest number + ahead highest number = highestNumber := by
  unfold age ahead highestNumber at *
  omega

/-- Seen from a number further up, everything is older by the distance, as long as that does not
take it once around the circle. -/
theorem age_of_ahead (hhighest : 1 ≤ highest ∧ highest ≤ highestNumber)
    (hnumber : 1 ≤ number ∧ number ≤ highestNumber) (hcycle : 1 ≤ cycle ∧ cycle ≤ highestNumber)
    (hlt : age highest cycle + ahead highest number < highestNumber) :
    age number cycle = age highest cycle + ahead highest number := by
  unfold age ahead highestNumber at *
  omega

/-- Cycles of one age have one number. -/
theorem eq_of_age_eq (hhighest : highest ≤ highestNumber)
    (hcycle : 1 ≤ cycle ∧ cycle ≤ highestNumber) (hother : 1 ≤ other ∧ other ≤ highestNumber)
    (h : age highest cycle = age highest other) : cycle = other := by
  unfold age highestNumber at *
  omega

end Cycle

namespace FileSet

/-! ### How far the window spans -/

/-- The window spans all ages, and no more. -/
theorem currentRange_le_iff {set : FileSet} {n : Nat} :
    set.currentRange ≤ n ↔ ∀ d ∈ set.cycles, set.ageOf d < n := by
  -- the fold starts with the range of the cycles before
  have hfold : ∀ (cycles : List FileCycle) (range : Nat),
      cycles.foldl (fun range c => max range (set.ageOf c + 1)) range ≤ n ↔
        range ≤ n ∧ ∀ d ∈ cycles, set.ageOf d < n := by
    intro cycles
    induction cycles with
    | nil => simp
    | cons c cycles ih =>
        intro range
        rw [List.foldl_cons, ih, Nat.max_le, List.forall_mem_cons, and_assoc]
        rfl
  rw [currentRange, hfold]
  simp

theorem ageOf_lt_currentRange {set : FileSet} {d : FileCycle} (hd : d ∈ set.cycles) :
    set.ageOf d < set.currentRange := currentRange_le_iff.1 (Nat.le_refl _) d hd

/-! ### Choosing a number -/

/-- The ways in which a new cycle gets its number; it becomes the highest one in the first way and in
the last. -/
inductive Chosen (set : FileSet) (spec : CycleSpec) (number : Nat) : Bool → Prop
  | first (hnone : set.cycles = []) (hnumber : set.firstNumber spec = .ok number) :
      Chosen set spec number true
  | hole (hsome : set.cycles ≠ []) (hnumber : set.nextNumber spec = .ok number)
      (hnew : ∀ d ∈ set.cycles, d.item.key.cycle ≠ number)
      (hage : Cycle.age set.lead.highest number < set.lead.maxRange) :
      Chosen set spec number false
  | above (hsome : set.cycles ≠ []) (hnumber : set.nextNumber spec = .ok number)
      (hnew : ∀ d ∈ set.cycles, d.item.key.cycle ≠ number)
      (hage : set.lead.maxRange ≤ Cycle.age set.lead.highest number)
      (hrange : set.currentRange + Cycle.ahead set.lead.highest number ≤ set.lead.maxRange) :
      Chosen set spec number true

/-- **A number that is chosen comes about in one of these ways.** -/
theorem chosen_of_chooseNew {set : FileSet} {spec : CycleSpec} {number : Nat} {newest : Bool}
    (h : set.chooseNew spec = .ok (number, newest)) : Chosen set spec number newest := by
  unfold chooseNew at h
  by_cases hempty : set.cycles.isEmpty = true
  · rw [if_pos hempty] at h
    obtain ⟨n, hnumber, heq⟩ := bind_eq_ok.1 h
    cases heq
    exact .first (List.isEmpty_iff.1 hempty) hnumber
  · have hsome : set.cycles ≠ [] := fun hnil => hempty (List.isEmpty_iff.2 hnil)
    rw [if_neg hempty] at h
    obtain ⟨n, hnumber, h⟩ := bind_eq_ok.1 h
    rw [ite_throw_eq_ok] at h
    obtain ⟨hany, h⟩ := h
    have hnew : ∀ d ∈ set.cycles, d.item.key.cycle ≠ n := by
      intro d hd heq
      exact hany (List.any_eq_true.2 ⟨d, hd, decide_eq_true heq⟩)
    split at h
    · rename_i hage
      cases h
      exact .hole hsome hnumber hnew hage
    · rename_i hage
      rw [ite_throw_eq_ok] at h
      obtain ⟨hrange, heq⟩ := h
      cases heq
      exact .above hsome hnumber hnew (Nat.not_lt.1 hage) (Nat.not_lt.1 hrange)

theorem firstNumber_range {set : FileSet} {spec : CycleSpec} {number : Nat} (hspec : spec.Valid)
    (h : set.firstNumber spec = .ok number) : 1 ≤ number ∧ number ≤ Cycle.highestNumber := by
  have hone : 1 ≤ (1 : Nat) ∧ 1 ≤ Cycle.highestNumber := by decide
  cases spec with
  | absolute n =>
      cases h
      exact hspec
  | unspecified =>
      cases h
      exact hone
  | relative offset =>
      unfold firstNumber at h
      dsimp only at h
      split at h
      · cases h
        exact hone
      · cases h

/-- The number after the highest one is given out while that is not being cataloged. -/
theorem plusOne_eq_ok {set : FileSet} {number : Nat} (h : nextNumber.plusOne set = .ok number) :
    set.lead.plusOneExists = false ∧ number = Cycle.next set.lead.highest := by
  unfold nextNumber.plusOne at h
  split at h
  · cases h
  · rename_i hplusOne
    cases h
    exact ⟨Bool.eq_false_iff.2 hplusOne, rfl⟩

theorem nextNumber_range {set : FileSet} {spec : CycleSpec} {number : Nat} (hspec : spec.Valid)
    (h : set.nextNumber spec = .ok number) : 1 ≤ number ∧ number ≤ Cycle.highestNumber := by
  have hplusOne : nextNumber.plusOne set = .ok number →
      1 ≤ number ∧ number ≤ Cycle.highestNumber := by
    intro h
    obtain ⟨-, rfl⟩ := plusOne_eq_ok h
    exact Cycle.next_mem
  cases spec with
  | absolute n =>
      cases h
      exact hspec
  | unspecified => exact hplusOne h
  | relative offset =>
      unfold nextNumber at h
      dsimp only at h
      split at h
      · exact hplusOne h
      · split at h
        · cases h
        · cases h

end FileSet

namespace Catalog

/-- A new cycle has a number from 1 to 999 that no cycle of its set has. -/
theorem chooseNew_spec {set : FileSet} {spec : CycleSpec} {number : Nat} {newest : Bool}
    (hspec : spec.Valid) (h : set.chooseNew spec = .ok (number, newest)) :
    1 ≤ number ∧ number ≤ Cycle.highestNumber ∧
      ∀ c ∈ set.cycles, c.item.key.cycle ≠ number := by
  cases FileSet.chosen_of_chooseNew h with
  | first hnone hnumber =>
      obtain ⟨hpos, hle⟩ := FileSet.firstNumber_range hspec hnumber
      refine ⟨hpos, hle, ?_⟩
      rw [hnone]
      intro c hc
      cases hc
  | hole _ hnumber hnew _ =>
      obtain ⟨hpos, hle⟩ := FileSet.nextNumber_range hspec hnumber
      exact ⟨hpos, hle, hnew⟩
  | above _ hnumber hnew _ _ =>
      obtain ⟨hpos, hle⟩ := FileSet.nextNumber_range hspec hnumber
      exact ⟨hpos, hle, hnew⟩

end Catalog

end FileDirectory
