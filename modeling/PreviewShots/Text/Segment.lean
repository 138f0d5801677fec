/-!
# Segments of a text

A text is cut at every occurrence of a separator. There is always one
segment more than there are separators, so joining gives the text back.
-/

namespace PreviewShots.Text

def splitOn {α : Type} [DecidableEq α] (sep : α) : List α → List (List α)
  | [] => [[]]
  | c :: cs =>
    if c = sep then [] :: splitOn sep cs
    else match splitOn sep cs with
      | [] => [[c]]
      | part :: parts => (c :: part) :: parts

def joinWith {α : Type} (sep : List α) : List (List α) → List α
  | [] => []
  | [part] => part
  | part :: next :: parts => part ++ sep ++ joinWith sep (next :: parts)

theorem splitOn_ne_nil {α : Type} [DecidableEq α] (sep : α) (text : List α) : splitOn sep text ≠ [] := by
  cases text with
  | nil => simp [splitOn]
  | cons c cs =>
    simp only [splitOn]
    split
    · simp
    · split <;> simp

theorem joinWith_splitOn {α : Type} [DecidableEq α] (sep : α) (text : List α) :
    joinWith [sep] (splitOn sep text) = text := by
  induction text with
  | nil => rfl
  | cons c cs ih =>
    rcases h : splitOn sep cs with _ | ⟨part, parts⟩
    · exact absurd h (splitOn_ne_nil sep cs)
    · rw [h] at ih
      by_cases hc : c = sep
      · simp [splitOn, hc, h, joinWith, ih]
      · cases parts <;> simp_all [splitOn, joinWith]

/-- What follows the last separator; the whole text if there is none. -/
def afterLast {α : Type} [DecidableEq α] (sep : α) (text : List α) : List α :=
  (text.reverse.takeWhile (· ≠ sep)).reverse

/-- The text before and after its last separator. -/
def cutLast? {α : Type} [DecidableEq α] (sep : α) (text : List α) : Option (List α × List α) :=
  if sep ∈ text then
    some ((text.reverse.dropWhile (· ≠ sep)).tail.reverse, afterLast sep text)
  else none

theorem sep_not_mem_afterLast {α : Type} [DecidableEq α] (sep : α) (text : List α) : sep ∉ afterLast sep text := by
  intro h
  have := List.all_takeWhile (p := (· ≠ sep)) (l := text.reverse)
  simp only [List.all_eq_true, afterLast, List.mem_reverse] at this h
  simpa using this sep h

theorem takeWhile_eq_self {α : Type} {p : α → Bool} {text : List α} (h : ∀ c ∈ text, p c) :
    text.takeWhile p = text := by
  induction text with
  | nil => rfl
  | cons c cs ih => simp [h c, ih fun d hd => h d (by simp [hd])]

theorem afterLast_eq_self {α : Type} [DecidableEq α] {sep : α} {text : List α} (h : sep ∉ text) :
    afterLast sep text = text := by
  rw [afterLast, takeWhile_eq_self, List.reverse_reverse]
  intro c hc
  simpa using fun hs : c = sep => h (hs ▸ List.mem_reverse.1 hc)

end PreviewShots.Text
