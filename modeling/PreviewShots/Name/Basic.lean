import PreviewShots.Text.Segment
import PreviewShots.Text.Basic

/-!
# Qualified names

A qualified name is a text with dots; its simple name follows the last one. A
segment that is a hard keyword or not a plain identifier is written between
backticks, unless it stands between backticks already.
-/

namespace PreviewShots.Name

open PreviewShots.Text

def simple (name : Text) : Text :=
  afterLast (.char '.') name

def tick : CodePoint := '\x60'

def hardKeywords : List Text := [
  "as", "break", "class", "continue", "do", "else", "false", "for", "fun", "if",
  "in", "interface", "is", "null", "object", "package", "return", "super", "this",
  "throw", "true", "try", "typealias", "typeof", "val", "var", "when", "while"]

def isLetter (c : CodePoint) : Bool :=
  c.char?.any fun c => c.isAlpha || c == '_'

def isDigit (c : CodePoint) : Bool :=
  c.char?.any Char.isDigit

/-- One line feed at the end is let pass. -/
def isPlain (name : Text) : Bool :=
  let body := if name.getLast? = some (.char '\n') then name.dropLast else name
  match body with
  | [] => false
  | c :: cs => isLetter c && cs.all fun d => isLetter d || isDigit d

/-- Only the two ends are looked at, so a lone backtick counts. -/
def isTicked (name : Text) : Bool :=
  name.head? == some tick && name.getLast? == some tick

/-- A single identifier. -/
def escape (name : Text) : Text :=
  if isTicked name then name
  else if name ∈ hardKeywords || !isPlain name then tick :: (name ++ [tick])
  else name

/-- Every segment of a qualified name; the empty name stays empty. -/
def escapeQualified (name : Text) : Text :=
  if name.isEmpty then [] else joinWith "." ((splitOn (.char '.') name).map escape)

theorem escape_escape (name : Text) : escape (escape name) = escape name := by
  by_cases ht : isTicked name
  · simp [escape, ht]
  · by_cases hk : name ∈ hardKeywords || !isPlain name
    · have : isTicked (tick :: (name ++ [tick])) := by
        rw [← List.cons_append, isTicked, List.getLast?_concat]
        rfl
      simp only [escape, ht, hk, this, if_true, if_false, Bool.false_eq_true]
    · simp [escape, ht, hk]

theorem dot_not_mem_simple (name : Text) : .char '.' ∉ simple name :=
  sep_not_mem_afterLast _ name

end PreviewShots.Name
