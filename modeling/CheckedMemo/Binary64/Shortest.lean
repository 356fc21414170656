import CheckedMemo.Binary64.Basic

/-!
# Shortest decimal text

The text of a number is the shortest decimal that rounds to it, and the one nearest to it of those.
`shortest` looks at the decimal grids from the coarsest to the finest: a grid has a point among the
reals that round to the number exactly if one of the number's two neighbours on the grid is such a
point, so the first grid with a hit gives the fewest digits.  Seventeen digits always suffice.
-/

namespace CheckedMemo.Binary64

/-- The decimal number `digits · 10 ^ exponent`. -/
structure Decimal where
  digits : Nat
  exponent : Int
  deriving DecidableEq, Repr

/-- The rational that a decimal number denotes. -/
def Decimal.toRat (d : Decimal) : Rat := d.digits * (10 : Rat) ^ d.exponent

/-- An interval of rationals, with or without its two ends. -/
structure Interval where
  low : Rat
  high : Rat
  closed : Bool

/-- Whether an interval holds `x`. -/
def Interval.contains (i : Interval) (x : Rat) : Bool :=
  (i.low < x && x < i.high) || (i.closed && (x = i.low || x = i.high))

/-- The reals that round to `mantissa · 2 ^ exponent`: half a unit to either side, and a quarter
below a power of two, where the numbers lie twice as close. -/
def roundingInterval (mantissa : Nat) (exponent : Int) : Interval :=
  let unit := (2 : Rat) ^ exponent
  let below : Rat := if mantissa = leastFull ∧ minExponent < exponent then 1 / 4 else 1 / 2
  ⟨(mantissa - below) * unit, (mantissa + 1 / 2) * unit, mantissa % 2 = 0⟩

/-- The number of decimal digits of a natural number. -/
def digitCount (n : Nat) : Nat := (Nat.toDigits 10 n).length

/-- The `k` with `10 ^ k ≤ x < 10 ^ (k + 1)`, for positive `x`. -/
def magnitude (x : Rat) : Int :=
  if 1 ≤ x then digitCount x.floor.toNat - 1
  else -(digitCount ((1 / x).ceil.toNat - 1) : Int)

/-- The multiple of `10 ^ k` in the interval that is nearest to `x`, if a neighbour of `x` on that
grid lies in the interval; of two at the same distance, the even one. -/
def onGrid? (i : Interval) (x : Rat) (k : Int) : Option Decimal :=
  let n := (x / (10 : Rat) ^ k).floor.toNat
  let down : Decimal := ⟨n, k⟩
  let up : Decimal := ⟨n + 1, k⟩
  match i.contains down.toRat, i.contains up.toRat with
  | true, true =>
    let near := x - down.toRat
    let far := up.toRat - x
    if near < far ∨ (near = far ∧ n % 2 = 0) then some down else some up
  | true, false => some down
  | false, true => some up
  | false, false => none

/-- The first hit on `count` grids, each ten times as fine as the one before; past the last grid,
the point at or below `x`. -/
def firstHit (i : Interval) (x : Rat) (k : Int) : Nat → Decimal
  | 0 => ⟨(x / (10 : Rat) ^ k).floor.toNat, k⟩
  | count + 1 => (onGrid? i x k).getD (firstHit i x (k - 1) count)

/-- The shortest decimal that rounds to `mantissa · 2 ^ exponent`, for a positive mantissa. -/
def shortest (mantissa : Nat) (exponent : Int) : Decimal :=
  let x := scale mantissa exponent
  firstHit (roundingInterval mantissa exponent) x (magnitude x) 17

/-- How a decimal number is laid out: positional if the power of ten of its first digit lies between
the two bounds, else with one digit before the point and an exponent of at least
`exponentDigits` digits. -/
structure Layout where
  leastPositional : Int
  greatestPositional : Int
  exponentDigits : Nat

/-- Numbers from `0.0001` up to sixteen digits are written out, and exponents have two digits. -/
def layout : Layout := ⟨-4, 15, 2⟩

/-- The digits of a natural number without the zeros at the end. -/
def significant (n : Nat) : List Char :=
  ((Nat.toDigits 10 n).reverse.dropWhile (· == '0')).reverse

/-- Digits with a point after the first `point` of them, and zeros where there are none. -/
def positional (ds : List Char) (point : Int) : List Char :=
  if point ≤ 0 then '0' :: '.' :: List.replicate point.natAbs '0' ++ ds
  else
    let whole := point.toNat
    let fraction := if ds.length ≤ whole then ['0'] else ds.drop whole
    ds.take whole ++ List.replicate (whole - ds.length) '0' ++ '.' :: fraction

/-- Digits with a point after the first of them, followed by a power of ten. -/
def exponential (l : Layout) (ds : List Char) (power : Int) : List Char :=
  let fraction := if ds.length ≤ 1 then [] else '.' :: ds.drop 1
  let exponent := Nat.toDigits 10 power.natAbs
  ds.take 1 ++ fraction ++ 'e' :: (if power < 0 then '-' else '+') ::
    List.replicate (l.exponentDigits - exponent.length) '0' ++ exponent

/-- A positive decimal number in a layout. -/
def Decimal.chars (l : Layout) (d : Decimal) : List Char :=
  let ds := significant d.digits
  let power := d.exponent + digitCount d.digits - 1
  if l.leastPositional ≤ power ∧ power ≤ l.greatestPositional then positional ds (power + 1)
  else exponential l ds power

/-- The text of a number. -/
def text : Binary64 → String
  | .infinite negative => if negative then "-inf" else "inf"
  | .finite negative mantissa exponent _ =>
    let body := if mantissa = 0 then ['0', '.', '0']
      else (shortest mantissa exponent).chars layout
    String.ofList (if negative then '-' :: body else body)

end CheckedMemo.Binary64
