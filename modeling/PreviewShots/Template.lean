import PreviewShots.Name.Basic

/-!
# Templates

How a type name is spelled depends on the file it ends up in, so generated text
holds names between two delimiters until the file is known. A template is read
as plain code points and names; a delimiter that opens no name is plain.
-/

namespace PreviewShots.Template

def delimiter : CodePoint := '\x1f'

def placeholder (name : Text) : Text :=
  delimiter :: (name ++ [delimiter])

inductive Piece where
  | plain (c : CodePoint)
  | name (text : Text)
  deriving DecidableEq, Repr

/-- What remains of a template; `opened` holds what came since a delimiter that may
open a name, last one first. -/
def scan : Option Text → Text → List Piece
  | none, [] => []
  | some opened, [] => .plain delimiter :: opened.reverse.map .plain
  | none, c :: cs =>
    if c = delimiter then scan (some []) cs else .plain c :: scan none cs
  | some opened, c :: cs =>
    if c ≠ delimiter then scan (some (c :: opened)) cs
    else if opened.isEmpty then .plain delimiter :: scan (some []) cs
    else .name opened.reverse :: scan none cs

def pieces (template : Text) : List Piece :=
  scan none template

def Piece.fill (spell : Text → Text) : Piece → Text
  | .plain c => [c]
  | .name text => spell text

def fill (spell : Text → Text) (template : Text) : Text :=
  (pieces template).flatMap (·.fill spell)

/-- Names of `qualified` are written in full, all others by their simple name. -/
def spelling (qualified : List Text) (name : Text) : Text :=
  if name ∈ qualified then Name.escapeQualified name else Name.escape (Name.simple name)

/-- The text of a template in a file where the names of `qualified` are written in full. -/
def resolve (qualified : List Text) (template : Text) : Text :=
  fill (spelling qualified) template

theorem scan_name {name : Text} (h : delimiter ∉ name) (opened rest : Text)
    (hne : opened ≠ [] ∨ name ≠ []) :
    scan (some opened) (name ++ delimiter :: rest) =
      .name (opened.reverse ++ name) :: scan none rest := by
  induction name generalizing opened with
  | nil => simp_all [scan]
  | cons c cs ih =>
    simp only [List.mem_cons, not_or] at h
    simp [scan, Ne.symm h.1, ih h.2]

/-- A delimited name that is not empty is read as one piece. -/
theorem pieces_placeholder {name rest : Text} (h : delimiter ∉ name) (hne : name ≠ []) :
    pieces (placeholder name ++ rest) = .name name :: pieces rest := by
  simp [pieces, placeholder, scan, scan_name h [] rest (.inr hne)]

end PreviewShots.Template
