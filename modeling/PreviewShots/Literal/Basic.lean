import PreviewShots.Label

/-!
# Literals and annotations

What an annotation argument can hold: a string, a class literal, a list, an
annotation, or any other value together with the source text it was written as.
Names and source texts are labels, null where there is none.
-/

namespace PreviewShots

mutual
inductive Literal where
  | string (text : Text)
  | classRef (name : Label)
  | list (items : List Literal)
  | nested (value : Annotation)
  | other (value : Json) (source : Label)
structure Annotation where
  typeName : Label
  shortName : Label
  arguments : List Argument
  defaults : Option (List Argument)
structure Argument where
  name : Label
  value : Literal
end

instance : Inhabited Literal := ⟨.list []⟩

namespace Annotation

/-- An annotation without a short name is called by the simple name of its type. -/
def make (typeName shortName : Label) (arguments : List Argument)
    (defaults : Option (List Argument)) : Annotation :=
  ⟨typeName, if shortName.isTruthy then shortName else .string typeName.simple, arguments, defaults⟩

def ofName (typeName : Text) : Annotation :=
  make (.string typeName) .null [] none

end Annotation

end PreviewShots
