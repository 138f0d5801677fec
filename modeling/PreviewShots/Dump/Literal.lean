import PreviewShots.Dump.Entry
import PreviewShots.Literal.Basic
import PreviewShots.Name.Sorted

/-!
# Literals and annotations in a dump

Strings and lists stand for themselves; an object is a class literal, an
annotation or a value with its source text, by the first of the keys `class`,
`annotation` and `source` that it has. Arguments are an object, in the order
written, or a list of entries with a value and perhaps a name.
-/

namespace PreviewShots.Dump

def hasMember (key : Text) (ms : List Member) : Bool :=
  (getMember? key ms).isSome

/-- The annotation an object describes, its arguments given. The short name can only
be taken from a type that has a name. -/
def annotationOfMembers (ms : List Member) (arguments : List Argument)
    (defaults : Option (List Argument)) : Except Fault Annotation :=
  let typeName := label "type" ms
  let shortName := label "shortName" ms
  if shortName.isTruthy || typeName.isName then
    return Annotation.make typeName shortName arguments defaults
  else throw .illTyped

/-- Texts in the place of entries: the first one is refused. -/
def argumentsOfTexts? : List Text → Except Fault (List Argument)
  | [] => .ok []
  | text :: _ => .error (.dump (.argumentWithoutValue (.string text)))

mutual
def literal : Json → Except Fault Literal
  | .string text => .ok (.string text)
  | .array items => do return .list (← literals items)
  | .object ms =>
    match getMember? "class" ms with
    | some name => .ok (.classRef name)
    | none =>
      if hasMember "annotation" ms then do
        return .nested (← annotationIn ms)
      else match getMember? "source" ms with
        | some source => .ok (.other (label "value" ms) source)
        | none => .error (.dump (.unknownLiteral (Name.sorted (ms.map (·.key)))))
  | value => .ok (.other value .null)
def literals : List Json → Except Fault (List Literal)
  | [] => .ok []
  | item :: items => do
    let value ← literal item
    return value :: (← literals items)
/-- The literal under the key `value`. -/
def literalIn : List Member → Except Fault Literal
  | [] => .error .illTyped
  | ⟨key, value⟩ :: ms => if key = "value" then literal value else literalIn ms
/-- The annotation under the key `annotation`. -/
def annotationIn : List Member → Except Fault Annotation
  | [] => .error .illTyped
  | ⟨key, value⟩ :: ms => if key = "annotation" then annotationOf value else annotationIn ms
def annotationOf : Json → Except Fault Annotation
  | .string name => .ok (.ofName name)
  | .object ms => do
    let arguments ← argumentsIn "arguments" ms
    let defaults ← argumentsIn "defaults" ms
    annotationOfMembers ms (arguments.getD []) defaults
  | value => .error (.dump (.annotationKind value.kind))
/-- The arguments under a key, if it is there and not null. -/
def argumentsIn (wanted : Text) : List Member → Except Fault (Option (List Argument))
  | [] => .ok none
  | ⟨key, value⟩ :: ms => if key = wanted then arguments value else argumentsIn wanted ms
def arguments : Json → Except Fault (Option (List Argument))
  | .null => .ok none
  | .object ms => do return some (← namedArguments ms)
  | .array items => do return some (← argumentEntries items)
  | .string text => do return some (← argumentsOfTexts? (text.map fun c => [c]))
  | _ => .error .illTyped
def namedArguments : List Member → Except Fault (List Argument)
  | [] => .ok []
  | ⟨key, value⟩ :: ms => do
    let value ← literal value
    return ⟨.string key, value⟩ :: (← namedArguments ms)
def argumentEntries : List Json → Except Fault (List Argument)
  | [] => .ok []
  | item :: items => do
    let entry ← argumentEntry item
    return entry :: (← argumentEntries items)
def argumentEntry : Json → Except Fault Argument
  | .object ms =>
    if hasMember "value" ms then do
      let value ← literalIn ms
      return ⟨label "name" ms, value⟩
    else .error (.dump (.argumentWithoutValue (.object ms)))
  | item => .error (.dump (.argumentWithoutValue item))
end

end PreviewShots.Dump
