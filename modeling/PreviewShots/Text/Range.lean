import PreviewShots.Text.Basic

/-!
# Ranges of characters

Character properties are kept as ascending ranges of code points. A stepped
range holds every `step`-th code point between its ends.
-/

namespace PreviewShots.Text

abbrev Range := Nat × Nat

abbrev SteppedRange := Nat × Nat × Nat

def inRanges (ranges : List Range) (c : CodePoint) : Bool :=
  ranges.any fun (first, last) => first ≤ c.toNat && c.toNat ≤ last

def inSteppedRanges (ranges : List SteppedRange) (c : CodePoint) : Bool :=
  ranges.any fun (first, last, step) =>
    first ≤ c.toNat && c.toNat ≤ last && (c.toNat - first) % step == 0

/-- What is in some ranges is in none that lie apart from these. -/
theorem inRanges_eq_false_of_apart {ranges others : List Range} {c : CodePoint}
    (hapart : ∀ range ∈ ranges, ∀ other ∈ others, range.2 < other.1 ∨ other.2 < range.1)
    (h : inRanges ranges c) : inRanges others c = false := by
  simp only [inRanges, List.any_eq_true, List.any_eq_false, Bool.and_eq_true,
    decide_eq_true_eq] at h ⊢
  obtain ⟨range, hrange, hfirst, hlast⟩ := h
  intro other ho hin
  have := hapart range hrange other ho
  omega

end PreviewShots.Text
