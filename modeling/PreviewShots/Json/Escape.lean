import PreviewShots.Json.Basic

/-!
# JSON strings

Writing a string escapes the quote, the backslash and the control characters.
In the ASCII form all else that is not a printable ASCII character is written
as UTF-16 units, so a character outside the basic plane becomes two escapes.
-/

namespace PreviewShots.Json

def hexDigit (n : Nat) : Char :=
  if n < 10 then Char.ofNat ('0'.toNat + n) else Char.ofNat ('a'.toNat + (n - 10))

/-- The last `width` digits to base 16. -/
def hexDigits (width n : Nat) : Text :=
  match width with
  | 0 => []
  | width + 1 => hexDigits width (n / 16) ++ [.char (hexDigit (n % 16))]

def unitEscape (n : Nat) : Text :=
  "\\u" ++ hexDigits 4 n

/-- The short escapes: a backslash and one character. -/
def shortEscape? (c : CodePoint) : Option Text :=
  if c = '"' then some "\\\""
  else if c = '\\' then some "\\\\"
  else if c = '\n' then some "\\n"
  else if c = '\r' then some "\\r"
  else if c = '\t' then some "\\t"
  else if c = '\x08' then some "\\b"
  else if c = '\x0c' then some "\\f"
  else none

/-- The UTF-16 units of a code point. -/
def units (c : CodePoint) : List Nat :=
  if c.toNat < 0x10000 then [c.toNat]
  else
    let n := c.toNat - 0x10000
    [0xd800 + n / 0x400, 0xdc00 + n % 0x400]

def escapeCode (asciiOnly : Bool) (c : CodePoint) : Text :=
  match shortEscape? c with
  | some escape => escape
  | none =>
    if c.toNat < 0x20 || (asciiOnly && 0x7f ≤ c.toNat) then (units c).flatMap unitEscape else [c]

def quote (asciiOnly : Bool) (text : Text) : Text :=
  "\"" ++ text.flatMap (escapeCode asciiOnly) ++ "\""

end PreviewShots.Json
