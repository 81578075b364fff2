/-
**Regions of tracks.**

Mass storage is handed out in tracks.  A region is a run of consecutive tracks.

Main definitions:

* `FileDirectory.Region` — a run of tracks;
* `FileDirectory.Region.limit` — one past its last track.

Main results:

* `FileDirectory.Region.mem_iff` — the tracks of a region.
-/

set_option autoImplicit false

namespace FileDirectory

/-- A run of consecutive tracks. -/
structure Region where
  /-- The first track. -/
  first : Nat
  /-- How many tracks there are. -/
  count : Nat
  deriving DecidableEq, Repr

namespace Region

/-- One past the last track of a region. -/
def limit (r : Region) : Nat := r.first + r.count

/-- The text of a region. -/
def text (r : Region) : String := s!"{r.first}..{r.limit}"

/-- A track lies in a region. -/
instance : Membership Nat Region where
  mem r track := r.first ≤ track ∧ track < r.limit

theorem mem_iff {r : Region} {track : Nat} :
    track ∈ r ↔ r.first ≤ track ∧ track < r.limit := Iff.rfl

instance (r : Region) (track : Nat) : Decidable (track ∈ r) :=
  inferInstanceAs (Decidable (_ ∧ _))

end Region

end FileDirectory
