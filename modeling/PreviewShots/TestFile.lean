import PreviewShots.Fragment

/-!
# Test files

The text of a generated file: package, imports in ascending order, and the tests
with a blank line between them. Names that clash within the file are written in
full and not imported. A missing name has an empty text.
-/

namespace PreviewShots.TestFile

/-- Every name the fragments import. -/
def required (fragments : List Fragment) : List Label :=
  fragments.flatMap (·.requiredImports)

/-- Every name the fragments refer to or import. -/
def referenced (fragments : List Fragment) : List Label :=
  fragments.flatMap fun f => f.referencedNames ++ f.requiredImports

/-- The texts of names in ascending order. -/
def texts (names : List Label) : List Text :=
  Name.sorted (names.map (·.nameText))

/-- The names written in full. -/
def qualified (fragments : List Fragment) : List Text :=
  Name.clashing (texts (referenced fragments))

def imports (fragments : List Fragment) : List Text :=
  (texts (required fragments)).filter (· ∉ qualified fragments)

/-- Whether names have an order with a missing one among them: it clashes with no
other, and stands alone where names are imported. -/
def isOrdered (referenced required : List Label) : Bool :=
  let clashing := Label.clashing (Label.distinct referenced)
  (Label.texts? clashing).isSome &&
    (Label.sorted? (required.filter (!Label.has clashing ·))).isSome

/-- Whether the names are texts, or missing and still have an order. -/
def haveOrder (referenced required : List Label) : Bool :=
  (Label.texts? referenced).isSome ||
    (referenced.all (fun name => name.isName && name.isScalar) && isOrdered referenced required)

/-- Whether the fragments can stand in one file: they have texts, and their names an
order. -/
def isWritable (fragments : List Fragment) : Bool :=
  (Label.texts? (fragments.map (·.template))).isSome &&
    haveOrder (referenced fragments) (required fragments)

def packageLines (package : Text) : List Text :=
  if package.isEmpty then [] else ["package " ++ Name.escapeQualified package, ""]

def importLines (names : List Text) : List Text :=
  if names.isEmpty then []
  else names.map (fun n => "import " ++ Name.escapeQualified n) ++ [Text.ofString ""]

def render (package : Text) (fragments : List Fragment) : Text :=
  let tests := fragments.map (·.render (qualified fragments))
  Text.joinWith "\n" (packageLines package ++ importLines (imports fragments) ++
    [Text.joinWith "\n\n" tests]) ++ "\n"

end PreviewShots.TestFile
