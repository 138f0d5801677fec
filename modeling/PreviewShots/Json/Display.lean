import PreviewShots.Json.Compact
import PreviewShots.Text.Printable

/-!
# Values in messages

A value shown in a message has its strings in single quotes, or in double
quotes where it holds a single and no double quote. What is not printable is
escaped by its number. A string that stands alone is shown as it is.
-/

namespace PreviewShots.Json

def codeEscape (n : Nat) : Text :=
  if n < 0x100 then "\\x" ++ hexDigits 2 n
  else if n < 0x10000 then "\\u" ++ hexDigits 4 n
  else "\\U" ++ hexDigits 8 n

def shownCode (mark c : CodePoint) : Text :=
  if c = '\\' || c = mark then [.char '\\', c]
  else if c = '\n' then "\\n"
  else if c = '\r' then "\\r"
  else if c = '\t' then "\\t"
  else if Text.isPrintable c then [c]
  else codeEscape c.toNat

def shownText (text : Text) : Text :=
  let mark : CodePoint := if .char '\x27' ∈ text ∧ .char '"' ∉ text then '"' else '\x27'
  mark :: (text.flatMap (shownCode mark) ++ [mark])

mutual
def shown : Json → Text
  | .null => "None"
  | .bool b => if b then "True" else "False"
  | .int n => intText n
  | .float x => x.text
  | .string s => shownText s
  | .array items => "[" ++ shownItems items ++ "]"
  | .object members => "\x7b" ++ shownMembers members ++ "\x7d"
def shownItems : List Json → Text
  | [] => []
  | [item] => item.shown
  | item :: next :: items => item.shown ++ ", " ++ shownItems (next :: items)
def shownMembers : List Member → Text
  | [] => []
  | [⟨key, value⟩] => shownText key ++ ": " ++ value.shown
  | ⟨key, value⟩ :: next :: members =>
    shownText key ++ ": " ++ value.shown ++ ", " ++ shownMembers (next :: members)
end

def plain : Json → Text
  | .string s => s
  | v => v.shown

/-- The name a message gives to the kind of a value. -/
def Kind.name : Kind → Text
  | .null => "NoneType"
  | .bool => "bool"
  | .int => "int"
  | .float => "float"
  | .string => "str"
  | .array => "list"
  | .object => "dict"

end PreviewShots.Json
