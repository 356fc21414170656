/-!
# Binary floating-point numbers of 64 bits

A number is `± m · 2 ^ e` with a mantissa of at most 53 bits, or an infinity.  The representation is
kept unique: a mantissa below `2 ^ 52` stands at the least exponent, `-1074`.  Zero has a sign.
What is not a number is no member of this type.  `nearest` rounds a rational to the closest member,
a tie going to the even mantissa.
-/

namespace CheckedMemo

namespace Binary64

/-- The least mantissa of 53 bits, `2 ^ 52`. -/
def leastFull : Nat := 0x10000000000000

/-- The least exponent. -/
def minExponent : Int := -1074

/-- The greatest exponent. -/
def maxExponent : Int := 971

/-- A mantissa has at most 53 bits, and an exponent lies between the least and the greatest one. -/
def Fits (mantissa : Nat) (exponent : Int) : Prop :=
  mantissa < 2 * leastFull ∧ minExponent ≤ exponent ∧ exponent ≤ maxExponent

instance (mantissa : Nat) (exponent : Int) : Decidable (Fits mantissa exponent) :=
  inferInstanceAs (Decidable (_ ∧ _))

end Binary64

/-- A number of the binary format of 64 bits. -/
inductive Binary64 where
  /-- The number `± mantissa · 2 ^ exponent`. -/
  | finite (negative : Bool) (mantissa : Nat) (exponent : Int)
    (fits : Binary64.Fits mantissa exponent)
  /-- Positive or negative infinity. -/
  | infinite (negative : Bool)
  deriving DecidableEq, Repr, Inhabited

namespace Binary64

/-- Zero with a sign. -/
def zero (negative : Bool) : Binary64 := .finite negative 0 minExponent (by decide)

/-- The rational that a finite number denotes, its sign apart. -/
def scale (mantissa : Nat) (exponent : Int) : Rat := mantissa * (2 : Rat) ^ exponent

/-- The nearest natural number to a rational that is not negative, a tie going to the even one. -/
def roundEven (x : Rat) : Nat :=
  let n := x.floor.toNat
  let rest := x - n
  if rest < 1 / 2 ∨ (rest = 1 / 2 ∧ n % 2 = 0) then n else n + 1

/-- The exponent at which a positive rational has a mantissa of 53 bits, or the least one. -/
def exponentFor (x : Rat) : Int :=
  let e : Int := Nat.log2 x.num.toNat - Nat.log2 x.den - 53
  max minExponent (if x < scale (2 * leastFull) e then e else e + 1)

/-- The member closest to `± x`, for `x` not negative; infinity from half a unit past the greatest
finite number on. -/
def nearest (negative : Bool) (x : Rat) : Binary64 :=
  if x = 0 then zero negative
  else
    let e := exponentFor x
    let m := roundEven (x / (2 : Rat) ^ e)
    let (m, e) := if m = 2 * leastFull then (leastFull, e + 1) else (m, e)
    if fits : Fits m e then .finite negative m e fits else .infinite negative

end Binary64

end CheckedMemo
