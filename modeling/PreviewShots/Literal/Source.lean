import PreviewShots.Literal.Basic
import PreviewShots.StringLiteral

/-!
# Source text of literals

A literal is written in the notation of annotation arguments. Type names are
written through a spelling, so that the same literal can be written with simple
names, with full names or with names left open. The text kept with a value stands
for itself; where it is no text, it can be written behind a name and nowhere else.
-/

namespace PreviewShots

/-- How a type name is written. -/
abbrev Spelling := Label → Text

namespace Spelling

def simple : Spelling := Label.simple

def full : Spelling := Json.plain

end Spelling

/-- The text kept with a value, or else the value itself: a floating point number
with its suffix, a constant by its keyword. -/
def otherSource (value : Json) : Label → Text
  | .null => match value with
    | .null => "null"
    | .bool b => if b then "true" else "false"
    | .float x => x.text ++ "f"
    | v => v.plain
  | source => source.plain

/-- A name that is missing is not written. -/
def labelled (name : Label) (value : Text) : Text :=
  if name.isTruthy then name.plain ++ " = " ++ value else value

-- ---------------------------------------------------------------------------
-- Text
-- ---------------------------------------------------------------------------

mutual
def Literal.source (spelling : Spelling) : Literal → Text
  | .string text => StringLiteral.ofText text
  | .classRef name => spelling name ++ "::class"
  | .list items => "[" ++ Text.joinWith ", " (Literal.sources spelling items) ++ "]"
  | .nested value => value.source spelling
  | .other value source => otherSource value source
def Literal.sources (spelling : Spelling) : List Literal → List Text
  | [] => []
  | item :: items => item.source spelling :: Literal.sources spelling items
/-- An annotation inside another one, without a mark in front. -/
def Annotation.source (spelling : Spelling) : Annotation → Text
  | ⟨typeName, shortName, arguments, _⟩ =>
    (if typeName.isTruthy then spelling typeName else shortName.plain) ++
      "(" ++ Text.joinWith ", " (Argument.sources spelling arguments) ++ ")"
def Argument.sources (spelling : Spelling) : List Argument → List Text
  | [] => []
  | ⟨name, value⟩ :: rest =>
    labelled name (value.source spelling) :: Argument.sources spelling rest
end

def Argument.source (spelling : Spelling) (argument : Argument) : Text :=
  labelled argument.name (argument.value.source spelling)

theorem Argument.sources_eq_map (spelling : Spelling) (arguments : List Argument) :
    Argument.sources spelling arguments = arguments.map (Argument.source spelling) := by
  induction arguments with
  | nil => rfl
  | cons a rest ih =>
    cases a
    simp [Argument.sources, Argument.source, ih]

-- ---------------------------------------------------------------------------
-- Names
-- ---------------------------------------------------------------------------

mutual
/-- The type names written through the spelling, in order; a class literal may
lack its name. -/
def Literal.names : Literal → List Label
  | .string _ => []
  | .classRef name => [name]
  | .list items => Literal.allNames items
  | .nested value => value.names
  | .other _ _ => []
def Literal.allNames : List Literal → List Label
  | [] => []
  | item :: items => item.names ++ Literal.allNames items
def Annotation.names : Annotation → List Label
  | ⟨typeName, _, arguments, _⟩ =>
    (if typeName.isTruthy then [typeName] else []) ++ Argument.allNames arguments
def Argument.allNames : List Argument → List Label
  | [] => []
  | ⟨_, value⟩ :: rest => value.names ++ Argument.allNames rest
end

-- ---------------------------------------------------------------------------
-- Literals that cannot be written
-- ---------------------------------------------------------------------------

/-- What a literal is written as where it stands alone: its text, or what is kept
in the place of its text. -/
def Literal.written (spelling : Spelling) : Literal → Label
  | .other value .null => .string (otherSource value .null)
  | .other _ source => source
  | v => .string (v.source spelling)

/-- Whether a literal is written as a text. -/
def Literal.isText : Literal → Bool
  | .other _ .null => true
  | .other _ source => source.text?.isSome
  | _ => true

mutual
/-- Whether all that the literal holds can be written: items are texts, and type
names can be collected. -/
def Literal.isWritable : Literal → Bool
  | .string _ => true
  | .classRef name => name.isScalar
  | .list items => Literal.areWritable items
  | .nested value => value.isWritable
  | .other _ _ => true
def Literal.areWritable : List Literal → Bool
  | [] => true
  | item :: items => item.isText && item.isWritable && Literal.areWritable items
def Annotation.isWritable : Annotation → Bool
  | ⟨typeName, _, arguments, _⟩ => !typeName.isCompound && Argument.areWritable arguments
def Argument.areWritable : List Argument → Bool
  | [] => true
  | ⟨name, value⟩ :: rest =>
    (name.isTruthy || value.isText) && value.isWritable && Argument.areWritable rest
end

/-- An argument as it is written where it stands alone. -/
def Argument.written (spelling : Spelling) (argument : Argument) : Label :=
  if argument.name.isTruthy then .string (argument.source spelling)
  else argument.value.written spelling

end PreviewShots
