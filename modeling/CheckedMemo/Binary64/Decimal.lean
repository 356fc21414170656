import CheckedMemo.Binary64.Basic
import CheckedMemo.Text.Digits

/-!
# Reading decimal text

A real literal is an optional sign followed by `inf`, `infinity` or `nan`, in letters of either
case, or by decimal digits with an optional point and an optional power of ten.  Its value is
computed exactly and rounded once, unless the power of ten alone shows how it is rounded.
-/

namespace CheckedMemo

namespace Binary64

/-- The exponent of the least power of ten above every finite number. -/
def overflowPower : Int := 309

/-- The exponent of the greatest power of ten below half the least number that is not zero. -/
def underflowPower : Int := -324

/-- The member closest to the number with the given digits ahead of the point, times a power of
ten.  Without its leading zeros a number of `n` digits lies between `10 ^ (n - 1)` and `10 ^ n`, so
from some powers of ten on it is rounded to infinity or to zero, whatever its digits are. -/
def nearestDecimal (negative : Bool) (digits : List Char) (power : Int) : Binary64 :=
  let ds := digits.dropWhile (· = '0')
  if ds.isEmpty then zero negative
  else if overflowPower < ds.length + power then .infinite negative
  else if ds.length + power ≤ underflowPower then zero negative
  else .nearest negative ((Text.digitsValue ds : Rat) * (10 : Rat) ^ power)

end Binary64

/-- What a real literal denotes. -/
inductive RealLiteral where
  | number (x : Binary64)
  | notANumber
  deriving DecidableEq, Repr

namespace RealLiteral

/-- Reads the power of ten at the end of a literal. -/
def readPower? : List Char → Option Int
  | [] => some 0
  | c :: rest =>
    if c = 'e' ∨ c = 'E' then
      let (negative, ds) := Text.signed rest
      if ds.isEmpty || !ds.all Char.isDigit then none
      else some (if negative then -(Text.digitsValue ds : Int) else Text.digitsValue ds)
    else none

/-- Splits the fraction digits off the front of a text; without a point there are none. -/
def splitFraction : List Char → List Char × List Char
  | '.' :: rest => (rest.takeWhile Char.isDigit, rest.dropWhile Char.isDigit)
  | cs => ([], cs)

/-- Reads the digits of a literal and the power of ten that they count times. -/
def readMagnitude? (cs : List Char) : Option (List Char × Int) :=
  let whole := cs.takeWhile Char.isDigit
  let (fraction, rest) := splitFraction (cs.dropWhile Char.isDigit)
  if whole.isEmpty && fraction.isEmpty then none
  else (readPower? rest).map fun (p : Int) => (whole ++ fraction, p - (fraction.length : Int))

/-- Reads a real literal. -/
def ofText? (s : String) : Option RealLiteral := do
  let (negative, cs) := Text.signed (← Text.ungroup? false (Text.literalChars s))
  let word := String.ofList (cs.map Char.toLower)
  if word = "inf" ∨ word = "infinity" then return .number (.infinite negative)
  else if word = "nan" then return .notANumber
  else
    let (digits, power) ← readMagnitude? cs
    return .number (.nearestDecimal negative digits power)

end RealLiteral

end CheckedMemo
