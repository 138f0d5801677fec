import PreviewShots.Text.Basic

/-!
# String literals

Quote, backslash, dollar, line feed, carriage return and tab are written as a
backslash and one more character; all else stands for itself. `decode` reads a
literal from its opening quote to the first quote that is not escaped.
-/

namespace PreviewShots.StringLiteral

def encodeChar (c : CodePoint) : Text :=
  if c = '\\' then "\\\\"
  else if c = '"' then "\\\""
  else if c = '$' then "\\$"
  else if c = '\n' then "\\n"
  else if c = '\r' then "\\r"
  else if c = '\t' then "\\t"
  else [c]

def encode (text : Text) : Text :=
  text.flatMap encodeChar

def ofText (text : Text) : Text :=
  "\"" ++ encode text ++ "\""

def decodeEscape? (c : CodePoint) : Option CodePoint :=
  if c = '\\' || c = '"' || c = '$' then some c
  else if c = 'n' then some (.char '\n')
  else if c = 'r' then some (.char '\r')
  else if c = 't' then some (.char '\t')
  else none

/-- What a literal stands for up to its closing quote, and the text after it. -/
def decodeBody : Text → Option (Text × Text)
  | [] => none
  | c :: cs =>
    if c = '"' then some ([], cs)
    else if c = '$' || c = '\n' || c = '\r' || c = '\t' then none
    else if c = '\\' then
      match cs with
      | [] => none
      | e :: cs => do
        let d ← decodeEscape? e
        let (text, rest) ← decodeBody cs
        return (d :: text, rest)
    else do
      let (text, rest) ← decodeBody cs
      return (c :: text, rest)

def decode : Text → Option (Text × Text)
  | .char '"' :: cs => decodeBody cs
  | _ => none

end PreviewShots.StringLiteral
