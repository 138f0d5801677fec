import PreviewShots.Number.Binary64

/-!
# Shortest decimal text

A number is written with the fewest digits that read back as the same number,
and of those with the digits nearest to its value. Digits are found by trying
one decimal grid after the other, from coarse to fine; on a grid only the two
neighbours of the value can be nearest to it. All arithmetic is exact.
-/

namespace PreviewShots.Binary64

/-- The place of the decimal point before the first digit of `num / den`. -/
def decimalPoint (num den : Nat) : Int :=
  if den ≤ num then digitCount (num / den)
  else
    let k := digitCount (den / num)
    if den ≤ num * tenPow (k - 1) then 2 - (k : Int) else 1 - (k : Int)

/-- The integer `c` for which `c · 10 ^ grid` reads back as `mantissa · 2 ^ exponent`
and is nearest to it, if the grid has such a point. -/
def onGrid? (mantissa : Nat) (exponent grid : Int) : Option Nat :=
  let unit := twoPow exponent.toNat * tenPow (-grid).toNat
  let step := 4 * twoPow (-exponent).toNat * tenPow grid.toNat
  let value := 4 * mantissa * unit
  let gap := if mantissa = twoPow 52 ∧ leastExponent < exponent then 1 else 2
  let low := value - gap * unit
  let high := value + 2 * unit
  let readsBack (c : Nat) : Bool :=
    if mantissa % 2 = 0 then low ≤ c * step && c * step ≤ high
    else low < c * step && c * step < high
  let below := value / step
  match readsBack below, readsBack (below + 1) with
  | true, true =>
    let down := value - below * step
    let up := (below + 1) * step - value
    if down < up then some below
    else if up < down then some (below + 1)
    else some (below + below % 2)
  | true, false => some below
  | false, true => some (below + 1)
  | false, false => none

/-- The digits, without zeros at their end, and the place of the decimal point
before the first of them. -/
def shortestDigits (mantissa : Nat) (exponent : Int) : List Char × Int :=
  let point := decimalPoint (mantissa * twoPow exponent.toNat) (twoPow (-exponent).toNat)
  let found := (List.range 17).findSome? fun i =>
    let grid := point - (i + 1 : Nat)
    (onGrid? mantissa exponent grid).map (·, grid)
  let (value, grid) := found.getD (mantissa, 0)
  let digits := Nat.toDigits 10 value
  ((digits.reverse.dropWhile (· == '0')).reverse, grid + digits.length)

def zeros (n : Nat) : List Char :=
  List.replicate n '0'

/-- Exponents have a sign and at least two digits. -/
def exponentText (exponent : Int) : List Char :=
  let digits := Nat.toDigits 10 exponent.natAbs
  'e' :: (if exponent < 0 then '-' else '+') :: (zeros (2 - digits.length) ++ digits)

/-- Values from 0.0001 up to 10^16 are written positionally, with at least one
digit after the point; all others with an exponent. -/
def layOut (digits : List Char) (point : Int) : List Char :=
  if -4 < point ∧ point ≤ 16 then
    if point ≤ 0 then ['0', '.'] ++ zeros (-point).toNat ++ digits
    else
      let whole := point.toNat
      if digits.length ≤ whole then digits ++ zeros (whole - digits.length) ++ ['.', '0']
      else digits.take whole ++ ['.'] ++ digits.drop whole
  else
    match digits with
    | [] => exponentText (point - 1)
    | [d] => d :: exponentText (point - 1)
    | d :: ds => d :: '.' :: ds ++ exponentText (point - 1)

def text : Binary64 → String
  | .nan => "nan"
  | .infinite negative => if negative then "-inf" else "inf"
  | .finite negative mantissa exponent =>
    let body := if mantissa = 0 then ['0', '.', '0']
      else
        let (digits, point) := shortestDigits mantissa exponent
        layOut digits point
    String.ofList (if negative then '-' :: body else body)

example : (ofDecimal false 1 (-1)).text = "0.1" := by decide +kernel

example : (ofDecimal true 0 0).text = "-0.0" := by decide +kernel

example : (ofDecimal false 5 (-324)).text = "5e-324" := by decide +kernel

example : (ofDecimal false 1 16).text = "1e+16" := by decide +kernel

example : (ofDecimal false 9007199254740993 0).text = "9007199254740992.0" := by decide +kernel

end PreviewShots.Binary64
