import PreviewShots.Label
import PreviewShots.Template

/-!
# Fragments

The text of one generated test, in which type names are left open, and the
names it refers to. All of its parts are labels; in a fragment that was synthesized
they are texts, the package apart.
-/

namespace PreviewShots

structure Fragment where
  functionName : Label
  package : Label
  template : Label
  requiredImports : List Label
  signature : Label
  referencedNames : List Label

namespace Fragment

/-- Whether the fragment can be told apart from others. -/
def isNamed (fragment : Fragment) : Bool :=
  fragment.functionName.isScalar && fragment.signature.isScalar

/-- The text of the test, the names of `qualified` written in full. -/
def render (qualified : List Text) (fragment : Fragment) : Text :=
  Template.resolve qualified fragment.template.nameText

def functionText (fragment : Fragment) : Text :=
  fragment.render []

end Fragment

end PreviewShots
