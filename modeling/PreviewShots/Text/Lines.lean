import PreviewShots.Text.Blank
import PreviewShots.Text.Segment

/-!
# Lines of a text

A text read from a file has one kind of line end: a carriage return, alone or
before a line feed, is read as a line feed. No other character ends a line.
-/

namespace PreviewShots.Text

/-- Every line end is written as one line feed. -/
def unifyNewlines : List Char → List Char
  | [] => []
  | '\r' :: '\n' :: cs => '\n' :: unifyNewlines cs
  | c :: cs => (if c = '\r' then '\n' else c) :: unifyNewlines cs

theorem return_not_mem_unifyNewlines (text : List Char) : '\r' ∉ unifyNewlines text := by
  fun_induction unifyNewlines text with
  | case1 => simp
  | case2 cs ih => simpa using ih
  | case3 c cs _ ih => by_cases h : c = '\r' <;> simp_all [eq_comm]

/-- The lines that are not blank, without the blank characters at their ends. -/
def trimmedLines (text : Text) : List Text :=
  ((splitOn (.char '\n') text).map trim).filter (!·.isEmpty)

end PreviewShots.Text
