import PreviewShots.Json.Display
import PreviewShots.TypeRef.Notation

/-!
# Faults

Why an operation did not complete. Faults are causes; `message` words them.
-/

namespace PreviewShots

/-- What is wrong with a symbol dump. -/
inductive DumpFault where
  | rootKind (kind : Json.Kind)
  | fileWithoutPath
  | unknownOrigin (origin : Text) (path : Text)
  | typeKind (kind : Json.Kind)
  | typeNotation (text : Text) (fault : NotationFault)
  | unknownLiteral (keys : List Text)
  | argumentWithoutValue (entry : Json)
  | annotationKind (kind : Json.Kind)
  | parameterWithoutName (entry : Json)
  | functionWithoutName (path : Text)
  | unknownVisibility (visibility : Text)
  | unknownKind (kind : Json)

namespace DumpFault

def shownKeys (keys : List Text) : Text :=
  (Json.array (keys.map .string)).plain

def message : DumpFault → Text
  | .rootKind kind => "Symbol dump root must be an object, got " ++ kind.name
  | .fileWithoutPath => "Source file entry without a 'path'"
  | .unknownOrigin origin path => "Unknown origin '" ++ origin ++ "' for " ++ path
  | .typeKind kind => "Expected type string or object, got " ++ kind.name
  | .typeNotation text fault => fault.message text
  | .unknownLiteral keys => "Unrecognised value object with keys " ++ shownKeys keys
  | .argumentWithoutValue entry =>
    "Argument entries need a 'value': " ++ entry.shown
  | .annotationKind kind => "Expected annotation object, got " ++ kind.name
  | .parameterWithoutName entry => "Parameter without a name: " ++ entry.shown
  | .functionWithoutName path => "Function without a name in " ++ path
  | .unknownVisibility visibility => "Unknown visibility '" ++ visibility ++ "'"
  | .unknownKind kind => "Unknown declaration kind '" ++ kind.plain ++ "'"

end DumpFault

inductive Fault where
  /-- A symbol dump that is malformed. -/
  | dump (cause : DumpFault)
  /-- A generated file that was created before in the same run. -/
  | alreadyCreated (path : Text)
  /-- A file read as text that is not UTF-8. -/
  | notUtf8
  /-- A text or a path that has no form in UTF-8. -/
  | notEncodable
  /-- A path that holds the character NUL. -/
  | nullInPath
  /-- An integer in a JSON file with more digits than can be read. -/
  | longInteger (digits : Nat)
  /-- A file that cannot be read, written, created or removed. -/
  | fileSystem
  /-- A value of a kind that has no meaning where it stands. -/
  | illTyped

namespace Fault

/-- The greatest number of digits of an integer in a JSON file. -/
def digitLimit : Nat := 4300

def message : Fault → Text
  | .dump cause => cause.message
  | .alreadyCreated path => "Generated file already created in this run: " ++ path
  | .notUtf8 => "not UTF-8"
  | .notEncodable => "no form in UTF-8"
  | .nullInPath => "embedded null byte"
  | .longInteger digits =>
    "Exceeds the limit (" ++ Text.ofNat digitLimit ++ " digits) for integer string conversion: value has " ++
      Text.ofNat digits ++ " digits; use sys.set_int_max_str_digits() to increase the limit"
  | .fileSystem => "file system failure"
  | .illTyped => "value of an unexpected kind"

end Fault

end PreviewShots
