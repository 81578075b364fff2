/-
**A refused request changes nothing.**

Every operation looks at all that can stand in its way before it changes anything, the pack's free
tracks included; what the medium may still refuse afterwards is told as an error of the medium.  A
request that fails for any other reason therefore leaves the directory as it was: the catalog with
its file sets, assignments and free space, the records' places, and the medium with every attempt at
writing to it.  Releasing everything is many operations, of which a later one may be refused.

Main results:

* `FileDirectory.Directory.kind_of_perform` — an operation that the catalog accepts fails only by an
  error of the medium;
* `FileDirectory.Directory.unchanged_of_refused` — what a refused request leaves.
-/

import FileDirectory.Proofs.Directory.Reached

set_option autoImplicit false

namespace FileDirectory.Directory

open Catalog

/-- An operation that the catalog accepts fails only by an error of the medium. -/
theorem kind_of_perform {α : Type} {d : Directory} {change : Change α} {f : Failure}
    (h : (d.perform (.ok change)).1 = .error f) : f.kind = .mediumIo := by
  rcases answer_perform_cases d change with ⟨hanswer, -⟩ | ⟨g, hkind, hanswer⟩
  · cases h.symm.trans hanswer
  · obtain rfl := Except.error.inj (h.symm.trans hanswer)
    exact hkind

/-- An operation that fails otherwise was refused by the catalog. -/
theorem perform_of_kind_ne {α : Type} {d : Directory} {outcome : Except Failure (Change α)}
    {f : Failure} (h : (d.perform outcome).1 = .error f) (hkind : f.kind ≠ .mediumIo) :
    (d.perform outcome).2 = d := by
  cases outcome with
  | error e => rfl
  | ok change => exact absurd (kind_of_perform h) hkind

/-- **A refused request changes nothing**: whatever the directory, a request other than releasing
everything that fails by another error than one of the medium leaves the catalog, the store and its
device exactly as they were. -/
theorem unchanged_of_refused {d : Directory} {call : Call} {r : Request} (hr : r ≠ .releaseAll)
    {f : Failure} (hanswer : (d.handle call r).1 = .error f) (hkind : f.kind ≠ .mediumIo) :
    (d.handle call r).2 = d := by
  -- all operations but one are carried out by `perform`, and the one can be told so
  have hperform : ∀ {α : Type} (reply : α → Reply) (outcome : Except Failure (Change α)),
      d.handle call r = replied reply (d.perform outcome) → (d.handle call r).2 = d := by
    intro α reply outcome hhandle
    rw [hhandle] at hanswer ⊢
    exact perform_of_kind_ne (replied_eq_error.1 hanswer) hkind
  cases r with
  | createTape r => exact hperform _ _ rfl
  | createDisk r => exact hperform _ _ rfl
  | assign => exact hperform _ _ rfl
  | catalog file => exact hperform _ _ rfl
  | abort file => exact hperform _ _ rfl
  | delete => exact hperform _ _ rfl
  | release file => exact hperform _ _ rfl
  | releaseAll => exact absurd rfl hr
  | allocateTracks => exact hperform _ _ (congrArg (replied _) (allocateTracks_eq ..))
  | markWritten => exact hperform _ _ rfl
  | setGuard => exact hperform _ _ rfl
  | setInfo => rfl
  | cycleInfo => rfl
  | listSets => rfl

theorem unchanged_of_refused_crowded :
    (crowded.handle ⟨⟨1, "RUN1", "USER"⟩, 6, none⟩ (.allocateTracks ⟨1⟩ 3 5)).1 =
        .error (.packFull 5 1) ∧
      (crowded.handle ⟨⟨1, "RUN1", "USER"⟩, 6, none⟩ (.allocateTracks ⟨1⟩ 3 5)).2 = crowded := by
  have hanswer : (crowded.handle ⟨⟨1, "RUN1", "USER"⟩, 6, none⟩ (.allocateTracks ⟨1⟩ 3 5)).1 =
      .error (.packFull 5 1) := rfl
  exact ⟨hanswer, unchanged_of_refused (fun heq => by cases heq) hanswer (by decide)⟩

end FileDirectory.Directory
