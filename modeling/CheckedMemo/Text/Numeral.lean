import CheckedMemo.Text.Digits

/-!
# Numerals

The decimal text of an integer, and the integer that a literal denotes.  There is a limit to the
number of digits: an integer that is too long for it has no text, and a literal that is too long for
it denotes no integer.  The limit of a text is checked by taking digits off, no more of them than
the limit allows; that of a literal is checked on its digits before anything behind them is.
-/

namespace CheckedMemo.Text

/-- The most digits that the text of an integer may have; a sign does not count. -/
def maxDigits : Nat := 4300

/-- Whether a natural number has more than `count` decimal digits. -/
def exceedsDigits : Nat → Nat → Bool
  | 0, _ => true
  | count + 1, n => if n < 10 then false else exceedsDigits count (n / 10)

/-- The text of an integer, unless it has too many digits. -/
def numeral? (n : Int) : Option String :=
  if exceedsDigits maxDigits n.natAbs then none else some (toString n)

/-- What an integer literal denotes. -/
inductive IntegerLiteral where
  | number (n : Int)
  /-- The literal has too many digits. -/
  | tooLong (digits : Nat)
  /-- The text is no literal. -/
  | malformed
  deriving DecidableEq, Repr

/-- Whether a character can stand among the digits of a literal. -/
def isDigitOrMark (c : Char) : Bool := c.isDigit || c = '_'

/-- Reads an integer literal. -/
def IntegerLiteral.ofText (s : String) : IntegerLiteral :=
  let (negative, cs) := signed (literalChars s)
  match ungroup? false (cs.takeWhile isDigitOrMark) with
  | none => .malformed
  | some ds =>
    if maxDigits < ds.length then .tooLong ds.length
    else if ds.isEmpty || !cs.all isDigitOrMark then .malformed
    else
      let n : Int := digitsValue ds
      .number (if negative then -n else n)

/-! ### Laws -/

/-- The numbers of more than `count` digits, where `count` is not zero, are those from the power of
ten with that exponent on. -/
theorem exceedsDigits_succ_iff (count n : Nat) :
    exceedsDigits (count + 1) n = true ↔ Nat.pow 10 (count + 1) ≤ n := by
  induction count generalizing n with
  | zero => simp [exceedsDigits]
  | succ count ih =>
    have positive : 0 < Nat.pow 10 (count + 1) := Nat.pow_pos (by decide)
    have step : Nat.pow 10 (count + 1 + 1) = Nat.pow 10 (count + 1) * 10 := rfl
    rw [exceedsDigits, step]
    split
    · simp only [Bool.false_eq_true, false_iff]
      omega
    · rw [ih]
      omega

/-- An integer has a text exactly if it has few enough digits. -/
theorem numeral?_isSome_iff (n : Int) :
    (numeral? n).isSome = true ↔ exceedsDigits maxDigits n.natAbs = false := by
  unfold numeral?
  split <;> simp_all

end CheckedMemo.Text
