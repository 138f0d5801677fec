import PreviewShots.Json.Escape
import PreviewShots.Number.Shortest

/-!
# Compact JSON text

No blanks between tokens. Code points outside ASCII are written as they are, or
all as escapes.
-/

namespace PreviewShots.Json

/-- Infinities and the value that is no number have names of their own. -/
def floatText : Binary64 → Text
  | .nan => "NaN"
  | .infinite negative => if negative then "-Infinity" else "Infinity"
  | x => x.text

def intText (n : Int) : Text :=
  if n < 0 then "-" ++ Text.ofNat n.natAbs else Text.ofNat n.natAbs

mutual
def compact (asciiOnly : Bool) : Json → Text
  | .null => "null"
  | .bool b => if b then "true" else "false"
  | .int n => intText n
  | .float x => floatText x
  | .string s => quote asciiOnly s
  | .array items => "[" ++ compactItems asciiOnly items ++ "]"
  | .object members => "\x7b" ++ compactMembers asciiOnly members ++ "\x7d"
def compactItems (asciiOnly : Bool) : List Json → Text
  | [] => []
  | [item] => item.compact asciiOnly
  | item :: next :: items =>
    item.compact asciiOnly ++ "," ++ compactItems asciiOnly (next :: items)
def compactMembers (asciiOnly : Bool) : List Member → Text
  | [] => []
  | [⟨key, value⟩] => quote asciiOnly key ++ ":" ++ value.compact asciiOnly
  | ⟨key, value⟩ :: next :: members =>
    quote asciiOnly key ++ ":" ++ value.compact asciiOnly ++ "," ++
      compactMembers asciiOnly (next :: members)
end

end PreviewShots.Json
