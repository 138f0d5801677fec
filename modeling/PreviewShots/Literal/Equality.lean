import PreviewShots.Json.Agreement
import PreviewShots.Literal.Basic

/-!
# Equality of literals

Literals of two kinds differ. Other values are equal when they have the same
kind, the same value and the same source text. Annotations are equal when they
have the same type name and equal arguments by name, where of equal names the
last one counts; all arguments without a name count as one name. Whether two
annotations are equal cannot be told where names of arguments have no key, unless
they differ before those names are reached.
-/

namespace PreviewShots

/-- Whether all answers are yes; they are asked for in order, up to the first no. -/
def allYes? : List (Option Bool) → Option Bool
  | [] => some true
  | some true :: rest => allYes? rest
  | some false :: _ => some false
  | none :: _ => none

namespace Argument

/-- The value of the last argument of that name. -/
def lastNamed? (name : Label) (arguments : List Argument) : Option Literal :=
  (arguments.reverse.find? fun a => a.name.key = name.key).map (·.value)

def hasName (name : Label) (arguments : List Argument) : Bool :=
  arguments.any fun a => a.name.key = name.key

def haveKeys (arguments : List Argument) : Bool :=
  arguments.all (·.name.isScalar)

/-- Whether both lists have the same names. -/
def sameNames (left right : List Argument) : Bool :=
  left.all (fun a => hasName a.name right) && right.all fun a => hasName a.name left

end Argument

mutual
/-- Whether two literals are equal, if that can be told. -/
def Literal.equal? : Literal → Literal → Option Bool
  | .string s, right => match right with
    | .string t => some (s = t)
    | _ => some false
  | .classRef m, right => match right with
    | .classRef n => some (m.equal n)
    | _ => some false
  | .list xs, right => match right with
    | .list ys => if xs.length = ys.length then Literal.allEqual? xs ys else some false
    | _ => some false
  | .nested a, right => match right with
    | .nested b => a.equal? b
    | _ => some false
  | .other v s, right => match right with
    | .other w t => some (v.same w && s.equal t)
    | _ => some false
termination_by structural left => left
/-- Whether the items are equal one by one. -/
def Literal.allEqual? : List Literal → List Literal → Option Bool
  | [], _ => some true
  | x :: xs, ys => match ys with
    | [] => some true
    | y :: ys => match x.equal? y with
      | some true => Literal.allEqual? xs ys
      | answer => answer
termination_by structural left => left
def Annotation.equal? : Annotation → Annotation → Option Bool
  | ⟨typeName, _, arguments, _⟩, right =>
    if !typeName.equal right.typeName then some false
    else if !(Argument.haveKeys arguments && Argument.haveKeys right.arguments) then none
    else if !Argument.sameNames arguments right.arguments then some false
    else
      let answers := Argument.answers arguments right.arguments
      allYes? ((Label.distinct (arguments.map (·.name))).filterMap (Label.find? · answers))
termination_by structural left => left
/-- For each name the answer to whether its last values are equal. -/
def Argument.answers : List Argument → List Argument → List (Label × Option Bool)
  | [], _ => []
  | ⟨name, value⟩ :: rest, right =>
    if Argument.hasName name rest then Argument.answers rest right
    else match Argument.lastNamed? name right with
      | some other => (name, value.equal? other) :: Argument.answers rest right
      | none => Argument.answers rest right
termination_by structural left => left
end

/-- Whether two literals are known to be equal. -/
def Literal.equal (left right : Literal) : Bool :=
  left.equal? right = some true

/-- A literal compared with itself is equal without a look inside; nothing is
equal to a literal that is missing. -/
inductive Counterpart where
  | itself
  | missing
  | literal (value : Literal)

def Literal.equalTo? (left : Literal) : Counterpart → Option Bool
  | .itself => some true
  | .missing => some false
  | .literal right => left.equal? right

end PreviewShots
