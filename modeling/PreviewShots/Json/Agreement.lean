import PreviewShots.Json.Basic

/-!
# Agreement of values

Numbers agree by their exact value, whatever their kind, and true and false count
as one and zero. Objects agree regardless of the order of their members. The value
that is no number agrees with itself, but where it stands alone it equals nothing.
-/

namespace PreviewShots.Json

/-- A numeric value: none, an infinity, or a rational number. -/
inductive Quantity where
  | nan
  | infinite (negative : Bool)
  | finite (value : Rat)
  deriving DecidableEq

/-- The rational number `mantissa · 2 ^ exponent`. -/
def scaled (mantissa : Int) (exponent : Int) : Rat :=
  mkRat (mantissa * Binary64.twoPow exponent.toNat) (Binary64.twoPow (-exponent).toNat)

def quantity? : Json → Option Quantity
  | .bool b => some (.finite (mkRat (if b then 1 else 0) 1))
  | .int n => some (.finite (mkRat n 1))
  | .float .nan => some .nan
  | .float (.infinite negative) => some (.infinite negative)
  | .float (.finite negative mantissa exponent) =>
    some (.finite (scaled (if negative then -(mantissa : Int) else mantissa) exponent))
  | _ => none

def Quantity.isLess : Quantity → Quantity → Bool
  | .infinite a, .infinite b => a && !b
  | .infinite a, .finite _ => a
  | .finite _, .infinite b => !b
  | .finite a, .finite b => a.blt b
  | _, _ => false

def numbersAgree (left right : Json) : Bool :=
  left.quantity?.isSome && left.quantity? = right.quantity?

mutual
def agrees : Json → Json → Bool
  | .null, right => match right with
    | .null => true
    | _ => false
  | .string s, right => match right with
    | .string t => s == t
    | _ => false
  | .array xs, right => match right with
    | .array ys => itemsAgree xs ys
    | _ => false
  | .object ms, right => match right with
    | .object ns => ms.length == ns.length && membersAgree ms ns
    | _ => false
  | .bool b, right => numbersAgree (.bool b) right
  | .int n, right => numbersAgree (.int n) right
  | .float x, right => numbersAgree (.float x) right
def itemsAgree : List Json → List Json → Bool
  | [], ys => ys.isEmpty
  | x :: xs, ys => match ys with
    | [] => false
    | y :: ys => x.agrees y && itemsAgree xs ys
def membersAgree : List Member → List Member → Bool
  | [], _ => true
  | ⟨key, value⟩ :: ms, ns =>
    (match getMember? key ns with
    | some other => value.agrees other
    | none => false) && membersAgree ms ns
end

/-- Two values that stand alone are equal when they agree; what is no number then
equals nothing. -/
def equal (left right : Json) : Bool :=
  match left with
  | .float .nan => false
  | left => left.agrees right

/-- Equal values of one kind. -/
def same (left right : Json) : Bool :=
  left.kind == right.kind && left.equal right

/-- Whether the one number is less than the other. -/
def isLess (left right : Json) : Bool :=
  match left.quantity?, right.quantity? with
  | some a, some b => a.isLess b
  | _, _ => false

@[simp] theorem agrees_string (left right : Text) :
    (Json.string left).agrees (.string right) = (left == right) := rfl

end PreviewShots.Json
