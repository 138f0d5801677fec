import PreviewShots.Name.Basic
import PreviewShots.Text.Lead
import PreviewShots.Text.Uppercase

/-!
# Names that need no import

A name is imported implicitly when one of the default packages is followed by a
segment that starts with an uppercase character. The segment after the package
decides, so a nested class counts with its outer class.
-/

namespace PreviewShots.Name

def defaultPackages : List Text := [
  "kotlin", "kotlin.annotation", "kotlin.collections", "kotlin.comparisons",
  "kotlin.io", "kotlin.ranges", "kotlin.sequences", "kotlin.text",
  "kotlin.jvm", "java.lang"]

/-- The name goes on after the package and a dot with an uppercase character. -/
def isClassOf (package name : Text) : Bool :=
  match Text.dropLead? (package ++ Text.ofString ".") name with
  | some (c :: _) => Text.isUppercase c
  | _ => false

def isImplicit (name : Text) : Bool :=
  defaultPackages.any (isClassOf · name)

end PreviewShots.Name
