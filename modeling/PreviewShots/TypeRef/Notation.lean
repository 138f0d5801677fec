import PreviewShots.Text.Blank
import PreviewShots.TypeRef.Basic

/-!
# The notation of types

A type is written as a name, arguments between angle brackets, and a question
mark if it is nullable; blanks may stand between these. An argument is a star or
a type, the type after `in` or `out` and a blank if it has a variance. A name is
any run of code points that are neither blank nor one of `< > , ?`.
-/

namespace PreviewShots

inductive NotationFault where
  | missingName (position : Nat)
  | unclosed
  | unexpected (found : CodePoint) (position : Nat)
  | trailing (position : Nat)
  deriving DecidableEq, Repr

namespace NotationFault

def message (text : Text) : NotationFault → Text
  | .missingName position => "Missing type name in '" ++ text ++ "' at " ++ Text.ofNat position
  | .unclosed => "Unclosed '<' in type '" ++ text ++ "'"
  | .unexpected found position =>
    "Unexpected '" ++ [found] ++ "' in type '" ++ text ++ "' at " ++ Text.ofNat position
  | .trailing position =>
    "Unexpected trailing text in type '" ++ text ++ "' at " ++ Text.ofNat position

end NotationFault

namespace TypeRef

open PreviewShots.Text

def isSeparator (c : CodePoint) : Bool :=
  c = '<' || c = '>' || c = ',' || c = '?'

def isNameCode (c : CodePoint) : Bool :=
  !isSeparator c && !isBlank c

/-- A variance is a keyword that a blank follows. -/
def cutVariance (text : Text) : Text × Text :=
  match text with
  | .char 'i' :: .char 'n' :: c :: rest => if isBlank c then ("in", c :: rest) else ("", text)
  | .char 'o' :: .char 'u' :: .char 't' :: c :: rest =>
    if isBlank c then ("out", c :: rest) else ("", text)
  | _ => ("", text)

mutual
/-- A type at the start of what remains of a text of length `total`. -/
def typeAt (total : Nat) : Nat → Text → Except NotationFault (TypeRef × Text)
  | 0, _ => .error .unclosed
  | fuel + 1, text =>
    let start := dropBlank text
    let name := start.takeWhile isNameCode
    if name.isEmpty then .error (.missingName (total - start.length))
    else
      match optionalArguments total fuel (dropBlank (start.dropWhile isNameCode)) with
      | .error fault => .error fault
      | .ok (arguments, rest) =>
        match dropBlank rest with
        | .char '?' :: rest => .ok (⟨.string name, arguments, true, false⟩, rest)
        | rest => .ok (⟨.string name, arguments, false, false⟩, rest)
def optionalArguments (total : Nat) :
    Nat → Text → Except NotationFault (List TypeArgument × Text)
  | 0, _ => .error .unclosed
  | fuel + 1, text =>
    match text with
    | .char '<' :: rest => argumentsAt total fuel rest
    | rest => .ok ([], rest)
/-- Arguments up to the closing bracket. -/
def argumentsAt (total : Nat) :
    Nat → Text → Except NotationFault (List TypeArgument × Text)
  | 0, _ => .error .unclosed
  | fuel + 1, text =>
    match argumentAt total fuel text with
    | .error fault => .error fault
    | .ok (argument, rest) =>
      match dropBlank rest with
      | [] => .error .unclosed
      | .char ',' :: rest =>
        match argumentsAt total fuel rest with
        | .error fault => .error fault
        | .ok (arguments, rest) => .ok (argument :: arguments, rest)
      | .char '>' :: rest => .ok ([argument], rest)
      | c :: rest => .error (.unexpected c (total - (rest.length + 1)))
def argumentAt (total : Nat) :
    Nat → Text → Except NotationFault (TypeArgument × Text)
  | 0, _ => .error .unclosed
  | fuel + 1, text =>
    match dropBlank text with
    | .char '*' :: rest => .ok (.star, rest)
    | text =>
      let (variance, rest) := cutVariance text
      match typeAt total fuel rest with
      | .error fault => .error fault
      | .ok (type, rest) => .ok (.projected (.string variance) (some type), rest)
end

/-- Each level of arguments takes four calls and at least two characters. -/
def parse (text : Text) : Except NotationFault TypeRef :=
  match typeAt text.length (4 * text.length + 4) text with
  | .error fault => .error fault
  | .ok (type, rest) =>
    if (dropBlank rest).isEmpty then .ok type else .error (.trailing (text.length - rest.length))

end TypeRef

end PreviewShots
