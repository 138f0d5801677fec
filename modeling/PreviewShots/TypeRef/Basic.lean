import PreviewShots.Label

/-!
# Type references

A type as it was resolved: a name, its arguments and whether it is nullable. A
type may lack a name or be marked as an error, and an argument may lack its
type; such a type is still written, with `Any` and `*` in the gaps. Names and
variances are labels.
-/

namespace PreviewShots

mutual
structure TypeRef where
  name : Label
  arguments : List TypeArgument
  nullable : Bool
  isError : Bool
inductive TypeArgument where
  | star
  | projected (variance : Label) (type : Option TypeRef)
end

namespace TypeRef

/-- The type of something whose type is not known. -/
def unknown : TypeRef := ⟨.null, [], false, true⟩

mutual
def source (spell : Label → Text) : TypeRef → Text
  | ⟨name, arguments, nullable, _⟩ =>
    let named := if name.isTruthy then spell name else "Any"
    let applied := if arguments.isEmpty then named
      else named ++ "<" ++ Text.joinWith ", " (argumentSources spell arguments) ++ ">"
    if nullable then applied ++ "?" else applied
def argumentSources (spell : Label → Text) : List TypeArgument → List Text
  | [] => []
  | .star :: rest => "*" :: argumentSources spell rest
  | .projected variance none :: rest => projection variance "*" :: argumentSources spell rest
  | .projected variance (some type) :: rest =>
    projection variance (type.source spell) :: argumentSources spell rest
where
  projection (variance : Label) (type : Text) : Text :=
    if variance.isTruthy then variance.plain ++ " " ++ type else type
end

mutual
/-- Every name in the type, its arguments included. -/
def names : TypeRef → List Label
  | ⟨name, arguments, _, _⟩ =>
    (if name.isTruthy then [name] else []) ++ argumentNames arguments
def argumentNames : List TypeArgument → List Label
  | [] => []
  | .projected _ (some type) :: rest => type.names ++ argumentNames rest
  | _ :: rest => argumentNames rest
end

end TypeRef

end PreviewShots
