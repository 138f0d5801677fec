import PreviewShots.Text.Basic

/-!
# Sorted names

A set of names is shown in ascending code point order, each name once.
-/

namespace PreviewShots.Name

def insert (name : Text) : List Text → List Text
  | [] => [name]
  | other :: names =>
    if name < other then name :: other :: names
    else if name = other then other :: names
    else other :: insert name names

def sorted (names : List Text) : List Text :=
  names.foldr insert []

@[simp] theorem mem_insert {name other : Text} {names : List Text} :
    other ∈ insert name names ↔ other = name ∨ other ∈ names := by
  induction names with
  | nil => simp [insert]
  | cons n ns ih =>
    simp only [insert]
    split
    · simp
    · split
      · rename_i h
        simp [h]
      · simp only [List.mem_cons, ih]
        exact or_left_comm

@[simp] theorem mem_sorted {name : Text} {names : List Text} :
    name ∈ sorted names ↔ name ∈ names := by
  induction names with
  | nil => simp [sorted]
  | cons n ns ih => simp_all [sorted]

theorem insert_pairwise {name : Text} {names : List Text} (h : names.Pairwise (· < ·)) :
    (insert name names).Pairwise (· < ·) := by
  induction names with
  | nil => simp [insert]
  | cons n ns ih =>
    obtain ⟨head, tail⟩ := List.pairwise_cons.1 h
    simp only [insert]
    split
    next hlt =>
      refine List.pairwise_cons.2 ⟨fun other ho => ?_, h⟩
      rcases List.mem_cons.1 ho with rfl | ho
      · exact hlt
      · exact List.lt_trans hlt (head other ho)
    next hlt =>
      split
      next => exact h
      next hne =>
        refine List.pairwise_cons.2 ⟨fun other ho => ?_, ih tail⟩
        rcases mem_insert.1 ho with rfl | ho
        · exact (List.le_iff_lt_or_eq.1 (List.not_lt.1 hlt)).resolve_right (Ne.symm hne)
        · exact head other ho

/-- Names come out in strictly ascending order. -/
theorem sorted_pairwise (names : List Text) : (sorted names).Pairwise (· < ·) := by
  induction names with
  | nil => exact .nil
  | cons n ns ih => exact insert_pairwise ih

end PreviewShots.Name
