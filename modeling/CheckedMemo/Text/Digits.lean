import CheckedMemo.Text.Blank
import CheckedMemo.Text.DecimalDigit

/-!
# Digits

The parts of a number literal that integers and reals have in common: blanks around the literal do
not count, a digit of any script counts as the digit of ASCII with its value, a sign may stand ahead
of the digits, and the digits may be grouped by single underscores, each of which stands between two
digits.
-/

namespace CheckedMemo.Text

/-- The number that a list of decimal digits spells. -/
def digitsValue (cs : List Char) : Nat :=
  cs.foldl (fun n c => 10 * n + (c.toNat - '0'.toNat)) 0

/-- Splits a sign off the front of a text. -/
def signed : List Char → Bool × List Char
  | '-' :: rest => (true, rest)
  | '+' :: rest => (false, rest)
  | cs => (false, cs)

/-- A text without its underscores, if each of them has a digit on either side; `inside` says
whether a digit stands ahead of the text. -/
def ungroup? (inside : Bool) : List Char → Option (List Char)
  | [] => some []
  | c :: rest =>
    if c = '_' then
      if inside && rest.head?.any Char.isDigit then ungroup? false rest else none
    else (ungroup? c.isDigit rest).map (c :: ·)

/-- The characters of a number literal without the blanks around it, its digits those of ASCII. -/
def literalChars (s : String) : List Char := trim isMargin (s.toList.map plainDigit)

/-! ### Laws -/

/-- The digits of one number behind those of another. -/
theorem digitsValue_append (as bs : List Char) :
    digitsValue (as ++ bs) = digitsValue as * Nat.pow 10 bs.length + digitsValue bs := by
  suffices h : ∀ (bs : List Char) (n : Nat),
      bs.foldl (fun n c => 10 * n + (c.toNat - '0'.toNat)) n =
        n * Nat.pow 10 bs.length + digitsValue bs by
    rw [digitsValue, List.foldl_append, h]
    rfl
  intro bs
  induction bs with
  | nil => intro n; simp [digitsValue]
  | cons b bs ih =>
    intro n
    rw [digitsValue, List.foldl_cons, List.foldl_cons, ih, ih]
    have step : Nat.pow 10 (b :: bs).length = Nat.pow 10 bs.length * 10 := rfl
    rw [step]
    grind

/-- A text without underscores is left as it is. -/
theorem ungroup?_eq_some_self {cs : List Char} (h : '_' ∉ cs) (inside : Bool) :
    ungroup? inside cs = some cs := by
  induction cs generalizing inside with
  | nil => rfl
  | cons c rest ih =>
    have hc : c ≠ '_' := fun e => h (e ▸ List.mem_cons_self)
    rw [ungroup?, if_neg hc, ih fun m => h (List.mem_cons_of_mem c m)]
    rfl

end CheckedMemo.Text
