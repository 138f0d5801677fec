import PreviewShots.Dump.Entry

/-!
# Types in a dump

A type is null, a text in the notation of types, or an object with a name,
arguments and flags. An argument with a member `variance` is a projection; any
other is a star or a type.
-/

namespace PreviewShots.Dump

def typeOfText (text : Text) : Except Fault TypeRef :=
  match TypeRef.parse text with
  | .ok type => .ok type
  | .error fault => .error (.dump (.typeNotation text fault))

def argumentOfText (text : Text) : Except Fault TypeArgument :=
  if text = "*" then .ok .star
  else do return .projected (.string "") (some (← typeOfText text))

def argumentsOfTexts : List Text → Except Fault (List TypeArgument)
  | [] => .ok []
  | text :: texts => do
    let argument ← argumentOfText text
    return argument :: (← argumentsOfTexts texts)

/-- The type an object describes, its arguments given. -/
def typeOfMembers (ms : List Member) (arguments : List TypeArgument) : TypeRef :=
  ⟨label "name" ms, arguments, flag false (getMember? "nullable" ms),
    flag false (getMember? "error" ms)⟩

mutual
def type : Json → Except Fault (Option TypeRef)
  | .null => .ok none
  | .string text => do return some (← typeOfText text)
  | .object ms => do
    let arguments ← typeArgumentsIn ms
    return some (typeOfMembers ms arguments)
  | value => .error (.dump (.typeKind value.kind))
/-- The type under the key `type`. -/
def typeIn : List Member → Except Fault (Option TypeRef)
  | [] => .ok none
  | ⟨key, value⟩ :: ms => if key = "type" then type value else typeIn ms
def typeArgumentsIn : List Member → Except Fault (List TypeArgument)
  | [] => .ok []
  | ⟨key, value⟩ :: ms => if key = "arguments" then typeArguments value else typeArgumentsIn ms
def typeArguments : Json → Except Fault (List TypeArgument)
  | .array items => typeArgumentList items
  | .string text => argumentsOfTexts (text.map fun c => [c])
  | .object ms => argumentsOfTexts (ms.map (·.key))
  | _ => .error .illTyped
def typeArgumentList : List Json → Except Fault (List TypeArgument)
  | [] => .ok []
  | item :: items => do
    let argument ← typeArgument item
    return argument :: (← typeArgumentList items)
def typeArgument : Json → Except Fault TypeArgument
  | .string text => argumentOfText text
  | .object ms => match getMember? "variance" ms with
    | some variance => do
      let type ← typeIn ms
      return .projected variance type
    | none => do
      let arguments ← typeArgumentsIn ms
      return .projected (.string "") (some (typeOfMembers ms arguments))
  | item => do return .projected (.string "") (← type item)
end

end PreviewShots.Dump
