/-
**Arguments of operations.**

Callers pass the names and keys of file sets, and cycles, as they like; an operation first brings
them into the form that the catalog keeps, or refuses them.  Names have up to twelve characters and
keys up to six; letters are made capitals.

Main definitions:

* `FileDirectory.NameRole.normalize` — a text in its role, with capital letters;
* `FileDirectory.SetName.ofTexts`, `FileDirectory.CycleSpec.check` — the name of a file set and of a
  cycle;
* `FileDirectory.keyAccepted` — whether a key that is given opens what a stored key protects.

Main results:

* `FileDirectory.NameRole.normalize_eq_ok_iff` — exactly the well-formed texts are accepted.
-/

import FileDirectory.Failure

set_option autoImplicit false

namespace FileDirectory

namespace NameRole

/-- The characters of names and keys. -/
def allows (c : Char) : Bool :=
  ('A' ≤ c && c ≤ 'Z') || ('0' ≤ c && c ≤ '9') || c = '-' || c = '$'

/-- The greatest number of characters of a text in a role. -/
def maxLength : NameRole → Nat
  | qualifier | filename => 12
  | key => 6

/-- The least number of characters of a text in a role. -/
def minLength : NameRole → Nat
  | qualifier | filename => 1
  | key => 0

/-- Capital letters that are fit for a role. -/
def Fits (role : NameRole) (cs : List Char) : Prop :=
  (∀ c ∈ cs, allows c = true) ∧ role.minLength ≤ cs.length ∧ cs.length ≤ role.maxLength

instance (role : NameRole) (cs : List Char) : Decidable (role.Fits cs) :=
  -- the characters of the text are looked at, not all characters there are
  @instDecidableAnd _ _ (List.decidableBAll _ cs) inferInstance

/-- A text in a role, with capital letters. -/
def normalize (role : NameRole) (text : String) : Except Failure String :=
  let capitals := text.toList.map Char.toUpper
  if role.Fits capitals then .ok (String.ofList capitals) else .error (.badName role text)

/-- Exactly the texts whose capitals fit the role are accepted, as their capitals. -/
theorem normalize_eq_ok_iff {role : NameRole} {text name : String} :
    role.normalize text = .ok name ↔
      role.Fits (text.toList.map Char.toUpper) ∧
        name = String.ofList (text.toList.map Char.toUpper) := by
  unfold normalize
  by_cases h : role.Fits (text.toList.map Char.toUpper)
  · simp [h, eq_comm]
  · simp [h]

end NameRole

/-- The name of a file set from what a caller passes. -/
def SetName.ofTexts (qualifier filename : String) : Except Failure SetName := do
  let qualifier ← NameRole.qualifier.normalize qualifier
  let filename ← NameRole.filename.normalize filename
  return ⟨qualifier, filename⟩

/-- The way a caller names a cycle, if it is valid. -/
def CycleSpec.check (spec : CycleSpec) : Except Failure CycleSpec :=
  if spec.Valid then .ok spec else .error (.badCycle spec)

/-- An empty key protects nothing; any other key opens only for itself. -/
def keyAccepted (stored given : String) : Bool := stored = "" || stored = given

/-- Complains unless the key in a role is accepted. -/
def LeadItem.checkKey (lead : LeadItem) (role : KeyRole) (given : String) : Except Failure Unit :=
  let stored := match role with
    | .read => lead.readKey
    | .write => lead.writeKey
  if keyAccepted stored given then .ok () else .error (.keyDiffers role lead.name)

end FileDirectory
