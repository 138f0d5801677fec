import PreviewShots.Fault

/-!
# Entries of a dump

A label is taken as it stands, and is null where it is absent. Text that has to be
read may be absent or null, which both mean that there is none; a value of another
kind in its place is refused.
-/

namespace PreviewShots.Dump

def label (key : Text) (ms : List Member) : Label :=
  (getMember? key ms).getD .null

def text? : Option Json → Except Fault (Option Text)
  | none | some .null => .ok none
  | some (.string s) => .ok (some s)
  | some _ => .error .illTyped

/-- Text that counts as missing when it is not truthy. -/
def truthyText? : Option Json → Except Fault (Option Text)
  | none => .ok none
  | some value => if value.isTruthy then text? (some value) else .ok none

/-- The elements of a list; an absent list is empty. -/
def elements : Option Json → Except Fault (List Json)
  | none => .ok []
  | some value => match value.elements? with
    | some items => .ok items
    | none => .error .illTyped

def members : Json → Except Fault (List Member)
  | .object ms => .ok ms
  | _ => .error .illTyped

/-- Whether the member is truthy, or `absent` if there is none. -/
def flag (absent : Bool) : Option Json → Bool
  | none => absent
  | some value => value.isTruthy

end PreviewShots.Dump
