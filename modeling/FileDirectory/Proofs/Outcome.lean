/-
**Outcomes.**

What can go wrong is told by an outcome: a result, or the reason why there is none.  A chain of steps
has a result if each step has one, and its reason is that of the first step that has none.

Main results:

* `FileDirectory.bind_eq_ok`, `FileDirectory.map_eq_ok`, `FileDirectory.mapError_eq_ok` — one step
  after another;
* `FileDirectory.ite_throw_eq_error` — a check;
* `FileDirectory.mapM_eq_ok`, `FileDirectory.mapM_eq_ok_of_iff`, `FileDirectory.mapM_eq_error` — one
  step for each member of a list.
-/

import Mathlib.Data.List.Basic

set_option autoImplicit false

namespace FileDirectory

/-! ### Chains of checks -/

section Chains

variable {ε ε' α β : Type}

theorem bind_eq_ok {x : Except ε α} {f : α → Except ε β} {b : β} :
    (x >>= f) = .ok b ↔ ∃ a, x = .ok a ∧ f a = .ok b := by
  cases x <;> simp [bind, Except.bind]

theorem bind_eq_error {x : Except ε α} {f : α → Except ε β} {e : ε} :
    (x >>= f) = .error e ↔ x = .error e ∨ ∃ a, x = .ok a ∧ f a = .error e := by
  cases x <;> simp [bind, Except.bind]

theorem map_eq_ok {x : Except ε α} {f : α → β} {b : β} :
    x.map f = .ok b ↔ ∃ a, x = .ok a ∧ f a = b := by
  cases x <;> simp [Except.map]

theorem mapError_eq_ok {f : ε → ε'} {x : Except ε α} {a : α} :
    x.mapError f = .ok a ↔ x = .ok a := by
  cases x <;> simp [Except.mapError]

theorem pure_eq_ok {a b : α} : (pure a : Except ε α) = .ok b ↔ a = b := by
  simp [pure, Except.pure]

/-- A check that is passed. -/
theorem ite_throw_eq_ok {p : Prop} [Decidable p] {e : ε} {f : α → Except ε β} {y : Except ε β}
    {b : β} :
    (if p then ((throw e : Except ε α) >>= f) else y) = .ok b ↔ ¬p ∧ y = .ok b := by
  by_cases h : p <;> simp [h, throw, throwThe, MonadExceptOf.throw, bind, Except.bind]

/-- A check that may not be passed. -/
theorem ite_throw_eq_error {p : Prop} [Decidable p] {e e' : ε} {f : α → Except ε β}
    {y : Except ε β} :
    (if p then ((throw e : Except ε α) >>= f) else y) = .error e' ↔
      p ∧ e = e' ∨ ¬p ∧ y = .error e' := by
  by_cases h : p <;> simp [h, throw, throwThe, MonadExceptOf.throw, bind, Except.bind]

end Chains

/-! ### The members of a list -/

section Members

variable {ε α β : Type} {f : α → Except ε β}

theorem mapM_eq_ok {l : List α} {r : List β} : l.mapM f = .ok r ↔ l.map f = r.map .ok := by
  induction l generalizing r with
  | nil =>
      rw [List.mapM_nil, pure_eq_ok]
      cases r <;> simp
  | cons a l ih =>
      rw [List.mapM_cons, bind_eq_ok]
      simp only [bind_eq_ok, pure_eq_ok, ih]
      cases r with
      | nil => simp
      | cons b r => simp [eq_comm, and_comm]

/-- The results, where it is known which members have one and which one it is. -/
theorem mapM_eq_ok_of_iff {p : α → Prop} {g : α → β} {l : List α}
    (h : ∀ a ∈ l, ∀ b, f a = .ok b ↔ p a ∧ b = g a) {r : List β} :
    l.mapM f = .ok r ↔ (∀ a ∈ l, p a) ∧ r = l.map g := by
  induction l generalizing r with
  | nil =>
      rw [List.mapM_nil, pure_eq_ok]
      simp [eq_comm]
  | cons a l ih =>
      obtain ⟨ha, hl⟩ := List.forall_mem_cons.1 h
      simp only [List.mapM_cons, bind_eq_ok, pure_eq_ok, ha, ih hl, List.forall_mem_cons,
        List.map_cons]
      constructor
      · rintro ⟨b, ⟨hp, rfl⟩, bs, ⟨hrest, rfl⟩, rfl⟩
        exact ⟨⟨hp, hrest⟩, rfl⟩
      · rintro ⟨⟨hp, hrest⟩, rfl⟩
        exact ⟨_, ⟨hp, rfl⟩, _, ⟨hrest, rfl⟩, rfl⟩

/-- The reason is that of the first member that has no result. -/
theorem mapM_eq_error {l : List α} {e : ε} :
    l.mapM f = .error e ↔
      ∃ before a after, l = before ++ a :: after ∧ (∀ b ∈ before, ∃ c, f b = .ok c) ∧
        f a = .error e := by
  induction l with
  | nil => simp [pure, Except.pure]
  | cons a l ih =>
      rw [List.mapM_cons, bind_eq_error]
      constructor
      · rintro (ha | ⟨b, ha, hrest⟩)
        · exact ⟨[], a, l, rfl, by simp, ha⟩
        · obtain hl | ⟨bs, -, hnone⟩ := bind_eq_error.1 hrest
          · obtain ⟨before, c, after, rfl, hbefore, hc⟩ := ih.1 hl
            refine ⟨a :: before, c, after, rfl, ?_, hc⟩
            exact List.forall_mem_cons.2 ⟨⟨b, ha⟩, hbefore⟩
          · cases hnone
      · rintro ⟨before, c, after, hl, hbefore, hc⟩
        cases before with
        | nil =>
            obtain ⟨rfl, -⟩ := List.cons.inj hl
            exact .inl hc
        | cons d before =>
            obtain ⟨rfl, rfl⟩ := List.cons.inj hl
            obtain ⟨⟨b, hb⟩, hbefore⟩ := List.forall_mem_cons.1 hbefore
            have hrest := ih.2 ⟨before, c, after, rfl, hbefore, hc⟩
            exact .inr ⟨b, hb, bind_eq_error.2 (.inl hrest)⟩

end Members

end FileDirectory
