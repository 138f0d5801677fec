import PreviewShots.Number.Binary64
import PreviewShots.Text.Basic

/-!
# JSON values

Integers and floating point numbers are told apart, and an object keeps its
members in the order written. An object that was read holds each key once; see
`setMember`.
-/

namespace PreviewShots

mutual
inductive Json where
  | null
  | bool (value : Bool)
  | int (value : Int)
  | float (value : Binary64)
  | string (text : Text)
  | array (items : List Json)
  | object (members : List Member)
structure Member where
  key : Text
  value : Json
end

instance : Inhabited Json := ⟨.null⟩

namespace Json

inductive Kind where
  | null | bool | int | float | string | array | object
  deriving DecidableEq, Repr

def kind : Json → Kind
  | .null => .null
  | .bool _ => .bool
  | .int _ => .int
  | .float _ => .float
  | .string _ => .string
  | .array _ => .array
  | .object _ => .object

/-- False for null, false, zero and what is empty. -/
def isTruthy : Json → Bool
  | .null => false
  | .bool b => b
  | .int n => n ≠ 0
  | .float (.finite _ mantissa _) => mantissa ≠ 0
  | .float _ => true
  | .string s => !s.isEmpty
  | .array items => !items.isEmpty
  | .object members => !members.isEmpty

/-- What iteration over a value gives: the items, the code points or the keys. -/
def elements? : Json → Option (List Json)
  | .array items => some items
  | .string s => some (s.map fun c => .string [c])
  | .object members => some (members.map fun m => .string m.key)
  | _ => none

end Json

/-- A key that occurs already keeps its place and takes the new value. -/
def setMember (key : Text) (value : Json) : List Member → List Member
  | [] => [⟨key, value⟩]
  | m :: ms => if m.key = key then ⟨key, value⟩ :: ms else m :: setMember key value ms

def getMember? (key : Text) : List Member → Option Json
  | [] => none
  | m :: ms => if m.key = key then some m.value else getMember? key ms

end PreviewShots
