import PreviewShots.Json.Escape

/-!
# Reading JSON

Strict JSON with three more literals: `NaN`, `Infinity` and `-Infinity`. Blanks
between tokens are space, tab, line feed and carriage return. A number with a
point or an exponent is a floating point number, any other an integer. Of equal
keys the last value counts, at the place of the first. Integers can be refused by
the number of their digits.
-/

namespace PreviewShots.Json

def isSpace (c : Char) : Bool :=
  c == ' ' || c == '\t' || c == '\n' || c == '\r'

def skipSpace (text : List Char) : List Char :=
  text.dropWhile isSpace

-- ---------------------------------------------------------------------------
-- Strings
-- ---------------------------------------------------------------------------

def hexValue? (c : Char) : Option Nat :=
  if '0' ≤ c && c ≤ '9' then some (c.toNat - '0'.toNat)
  else if 'a' ≤ c && c ≤ 'f' then some (c.toNat - 'a'.toNat + 10)
  else if 'A' ≤ c && c ≤ 'F' then some (c.toNat - 'A'.toNat + 10)
  else none

def hexValue4? (a b c d : Char) : Option Nat := do
  let a ← hexValue? a
  let b ← hexValue? b
  let c ← hexValue? c
  let d ← hexValue? d
  return ((a * 16 + b) * 16 + c) * 16 + d

def unescape? (c : Char) : Option Char :=
  if c = '"' then some '"'
  else if c = '\\' then some '\\'
  else if c = '/' then some '/'
  else if c = 'n' then some '\n'
  else if c = 'r' then some '\r'
  else if c = 't' then some '\t'
  else if c = 'b' then some '\x08'
  else if c = 'f' then some '\x0c'
  else none

/-- The code points and units up to the closing quote, and what follows it. -/
def scanString : List Char → Option (List Nat × List Char)
  | [] => none
  | c :: cs =>
    if c = '"' then some ([], cs)
    else if c = '\\' then
      match cs with
      | 'u' :: a :: b :: d :: e :: rest => do
        let n ← hexValue4? a b d e
        let (ns, rest) ← scanString rest
        return (n :: ns, rest)
      | e :: rest => do
        let c ← unescape? e
        let (ns, rest) ← scanString rest
        return (c.toNat :: ns, rest)
      | [] => none
    else if c.toNat < 0x20 then none
    else do
      let (ns, rest) ← scanString cs
      return (c.toNat :: ns, rest)

/-- Two units that make one character are joined. -/
def ofUnits : List Nat → Text
  | [] => []
  | [n] => [.ofNat n]
  | n :: m :: ns =>
    if 0xd800 ≤ n ∧ n < 0xdc00 ∧ 0xdc00 ≤ m ∧ m < 0xe000 then
      .ofNat (0x10000 + (n - 0xd800) * 0x400 + (m - 0xdc00)) :: ofUnits ns
    else .ofNat n :: ofUnits (m :: ns)

/-- A string whose opening quote has been read. -/
def string? (text : List Char) : Option (Text × List Char) :=
  (scanString text).map fun (ns, rest) => (ofUnits ns, rest)

-- ---------------------------------------------------------------------------
-- Numbers and literals
-- ---------------------------------------------------------------------------

def digitsValue (digits : List Char) : Nat :=
  digits.foldl (fun n d => n * 10 + (d.toNat - '0'.toNat)) 0

/-- The digits at the start, and what follows them. -/
def digits (text : List Char) : List Char × List Char :=
  (text.takeWhile Char.isDigit, text.dropWhile Char.isDigit)

/-- A point and at least one digit. -/
def fraction? : List Char → Option (List Char × List Char)
  | '.' :: rest =>
    match digits rest with
    | ([], _) => none
    | found => some found
  | _ => none

/-- A letter `e`, a sign or none, and at least one digit. -/
def exponent? : List Char → Option (Int × List Char)
  | e :: rest =>
    if e = 'e' || e = 'E' then
      let (negative, rest) := match rest with
        | '-' :: rest => (true, rest)
        | '+' :: rest => (false, rest)
        | rest => (false, rest)
      match digits rest with
      | ([], _) => none
      | (ds, rest) =>
        let n : Int := digitsValue ds
        some (if negative then -n else n, rest)
    else none
  | [] => none

/-- The whole part of a number has no needless zero at its start. -/
def whole? : List Char → Option (List Char × List Char)
  | '0' :: rest => some (['0'], rest)
  | text =>
    match digits text with
    | ([], _) => none
    | found => some found

/-- Why a text is no JSON. -/
inductive ReadFault where
  | malformed
  /-- An integer with more digits than can be read. -/
  | longInteger (digits : Nat)
  deriving DecidableEq, Repr

/-- A value at the start of a text, and what follows it. -/
abbrev Found := Except ReadFault (Json × List Char)

/-- An integer, if its digits are not more than the limit. -/
def integer (limit : Option Nat) (negative : Bool) (digits : List Char) : Except ReadFault Json :=
  if limit.any (· < digits.length) then .error (.longInteger digits.length)
  else
    let n : Int := digitsValue digits
    .ok (.int (if negative then -n else n))

def number (limit : Option Nat) (text : List Char) : Found :=
  let (negative, unsigned) := match text with
    | '-' :: rest => (true, rest)
    | text => (false, text)
  match whole? unsigned with
  | none => .error .malformed
  | some (ds, rest) =>
    let (fs, afterFraction) := (fraction? rest).getD ([], rest)
    match exponent? afterFraction with
    | some (e, rest) =>
      .ok (.float (.ofDecimal negative (digitsValue (ds ++ fs)) (e - fs.length)), rest)
    | none =>
      if fs.isEmpty then (integer limit negative ds).map (·, rest)
      else .ok (.float (.ofDecimal negative (digitsValue (ds ++ fs)) (-fs.length)), afterFraction)

def literal? : List Char → Option (Json × List Char)
  | 'n' :: 'u' :: 'l' :: 'l' :: rest => some (.null, rest)
  | 't' :: 'r' :: 'u' :: 'e' :: rest => some (.bool true, rest)
  | 'f' :: 'a' :: 'l' :: 's' :: 'e' :: rest => some (.bool false, rest)
  | 'N' :: 'a' :: 'N' :: rest => some (.float .nan, rest)
  | 'I' :: 'n' :: 'f' :: 'i' :: 'n' :: 'i' :: 't' :: 'y' :: rest =>
    some (.float (.infinite false), rest)
  | '-' :: 'I' :: 'n' :: 'f' :: 'i' :: 'n' :: 'i' :: 't' :: 'y' :: rest =>
    some (.float (.infinite true), rest)
  | _ => none

-- ---------------------------------------------------------------------------
-- Values
-- ---------------------------------------------------------------------------

mutual
/-- A value at the start of the text; `fuel` bounds the depth of the calls. -/
def value (limit : Option Nat) : Nat → List Char → Found
  | 0, _ | _ + 1, [] => .error .malformed
  | fuel + 1, c :: cs =>
    if c = '"' then match string? cs with
      | some (s, rest) => .ok (.string s, rest)
      | none => .error .malformed
    else if c = '[' then match skipSpace cs with
      | ']' :: rest => .ok (.array [], rest)
      | rest => (items limit fuel rest).map fun (found, rest) => (.array found, rest)
    else if c = '{' then match skipSpace cs with
      | '}' :: rest => .ok (.object [], rest)
      | rest => (members limit fuel [] rest).map fun (found, rest) => (.object found, rest)
    else match literal? (c :: cs) with
      | some found => .ok found
      | none => number limit (c :: cs)
/-- Items up to the closing bracket. -/
def items (limit : Option Nat) : Nat → List Char → Except ReadFault (List Json × List Char)
  | 0, _ => .error .malformed
  | fuel + 1, text => do
    let (item, rest) ← value limit fuel text
    match skipSpace rest with
    | ']' :: rest => return ([item], rest)
    | ',' :: rest =>
      let (found, rest) ← items limit fuel (skipSpace rest)
      return (item :: found, rest)
    | _ => throw .malformed
/-- Members up to the closing brace, after those read before. -/
def members (limit : Option Nat) :
    Nat → List Member → List Char → Except ReadFault (List Member × List Char)
  | fuel + 1, before, '"' :: text =>
    match string? text with
    | none => .error .malformed
    | some (key, rest) =>
      match skipSpace rest with
      | ':' :: rest => do
        let (found, rest) ← value limit fuel (skipSpace rest)
        let after := setMember key found before
        match skipSpace rest with
        | '}' :: rest => return (after, rest)
        | ',' :: rest => members limit fuel after (skipSpace rest)
        | _ => throw .malformed
      | _ => .error .malformed
  | _, _, _ => .error .malformed
end

/-- The value a whole text stands for. -/
def parse (limit : Option Nat) (text : List Char) : Except ReadFault Json := do
  let (found, rest) ← value limit (2 * text.length + 2) (skipSpace text)
  if (skipSpace rest).isEmpty then return found else throw .malformed

end PreviewShots.Json
