import PreviewShots.Name.Basic

/-!
# Clashing names

Two names clash when they differ and have the same simple name.
-/

namespace PreviewShots.Name

def Clash (left right : Text) : Prop :=
  left ≠ right ∧ simple left = simple right

instance : DecidableRel Clash := fun _ _ => inferInstanceAs (Decidable (_ ∧ _))

/-- The names that clash with another one of the list. -/
def clashing (names : List Text) : List Text :=
  names.filter fun name => names.any fun other => decide (Clash name other)

theorem mem_clashing {name : Text} {names : List Text} :
    name ∈ clashing names ↔ name ∈ names ∧ ∃ other ∈ names, Clash name other := by
  simp [clashing]

end PreviewShots.Name
