import PreviewShots.Json.Compact

/-!
# Indented JSON text

Each item and member stands on a line of its own, two blanks deeper than what
holds it; what is empty stays on one line. Only ASCII characters are written,
and no line end follows the value.
-/

namespace PreviewShots.Json

def newLine (depth : Nat) : Text :=
  .char '\n' :: List.replicate (2 * depth) (.char ' ')

mutual
def indented (depth : Nat) : Json → Text
  | .null => "null"
  | .bool b => if b then "true" else "false"
  | .int n => intText n
  | .float x => floatText x
  | .string s => quote true s
  | .array [] => "[]"
  | .array (item :: items) =>
    "[" ++ newLine (depth + 1) ++ item.indented (depth + 1) ++
      indentedItems (depth + 1) items ++ newLine depth ++ "]"
  | .object [] => "\x7b\x7d"
  | .object (⟨key, value⟩ :: members) =>
    "\x7b" ++ newLine (depth + 1) ++ quote true key ++ ": " ++ value.indented (depth + 1) ++
      indentedMembers (depth + 1) members ++ newLine depth ++ "\x7d"
def indentedItems (depth : Nat) : List Json → Text
  | [] => []
  | item :: items => "," ++ newLine depth ++ item.indented depth ++ indentedItems depth items
def indentedMembers (depth : Nat) : List Member → Text
  | [] => []
  | ⟨key, value⟩ :: members =>
    "," ++ newLine depth ++ quote true key ++ ": " ++ value.indented depth ++
      indentedMembers depth members
end

end PreviewShots.Json
