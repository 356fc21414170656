/-!
# Blank characters

A character is blank when it separates words: the Unicode white space together with the four
information separators.  `strip` cuts the blanks at both ends of a text and keeps those inside.
Around a number literal the information separators do not count as blanks.
-/

namespace CheckedMemo.Text

/-- Whether a character is white space: tab to carriage return, the information separators, the
space, next line, and the spaces and separators of Unicode. -/
def isBlank (c : Char) : Bool :=
  let n := c.toNat
  (0x09 ≤ n && n ≤ 0x0d) || (0x1c ≤ n && n ≤ 0x20) || n == 0x85 || n == 0xa0 || n == 0x1680 ||
    (0x2000 ≤ n && n ≤ 0x200a) || n == 0x2028 || n == 0x2029 || n == 0x202f || n == 0x205f ||
    n == 0x3000

/-- Whether a character is one of the four information separators. -/
def isInformationSeparator (c : Char) : Bool := 0x1c ≤ c.toNat && c.toNat ≤ 0x1f

/-- Whether a character may stand around a number literal. -/
def isMargin (c : Char) : Bool := isBlank c && !isInformationSeparator c

/-- Every character that is white space in ASCII is blank. -/
theorem isBlank_of_isWhitespace {c : Char} (h : c.isWhitespace = true) : isBlank c = true := by
  simp only [Char.isWhitespace, Bool.or_eq_true, decide_eq_true_eq] at h
  rcases h with ((rfl | rfl) | rfl) | rfl <;> rfl

/-- A list of characters without those of a class at either end. -/
def trim (outer : Char → Bool) (cs : List Char) : List Char :=
  ((cs.dropWhile outer).reverse.dropWhile outer).reverse

/-- A text without the blanks at either end. -/
def strip (s : String) : String := String.ofList (trim isBlank s.toList)

end CheckedMemo.Text
