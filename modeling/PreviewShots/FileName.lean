import PreviewShots.Text.Basic
import PreviewShots.Text.Segment

/-!
# File names

The name of a file follows the last slash or backslash of its path; its base
name ends before the last dot.
-/

namespace PreviewShots.FileName

open PreviewShots.Text

/-- Backslashes count as slashes. -/
def slashed (path : Text) : Text :=
  path.map fun c => if c = CodePoint.char '\\' then .char '/' else c

def ofPath (path : Text) : Text :=
  afterLast (.char '/') (slashed path)

def base (path : Text) : Text :=
  let name := ofPath path
  match cutLast? (.char '.') name with
  | some (before, _) => before
  | none => name

end PreviewShots.FileName
