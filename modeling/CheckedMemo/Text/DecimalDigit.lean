/-!
# Decimal digits

Besides `0` to `9` there are the decimal digits of other scripts.  The ten digits of a script follow
one another by value, so that the table of their zeros determines them all; it lists those of
Unicode 14.  Signs for other numbers, such as fractions and superscripts, are no decimal digits.
-/

namespace CheckedMemo.Text

/-- The code points of the zeros, in ascending order. -/
def zeros : List Nat :=
  [0x30, 0x660, 0x6f0, 0x7c0, 0x966, 0x9e6, 0xa66, 0xae6, 0xb66, 0xbe6, 0xc66, 0xce6, 0xd66, 0xde6,
   0xe50, 0xed0, 0xf20, 0x1040, 0x1090, 0x17e0, 0x1810, 0x1946, 0x19d0, 0x1a80, 0x1a90, 0x1b50,
   0x1bb0, 0x1c40, 0x1c50, 0xa620, 0xa8d0, 0xa900, 0xa9d0, 0xa9f0, 0xaa50, 0xabf0, 0xff10, 0x104a0,
   0x10d30, 0x11066, 0x110f0, 0x11136, 0x111d0, 0x112f0, 0x11450, 0x114d0, 0x11650, 0x116c0,
   0x11730, 0x118e0, 0x11950, 0x11c50, 0x11d50, 0x11da0, 0x16a60, 0x16ac0, 0x16b50, 0x1d7ce,
   0x1d7d8, 0x1d7e2, 0x1d7ec, 0x1d7f6, 0x1e140, 0x1e2f0, 0x1e950, 0x1fbf0]

/-- The value of a decimal digit; nothing for any other character. -/
def digitOf? (c : Char) : Option Nat :=
  (zeros.find? fun z => z ≤ c.toNat && c.toNat < z + 10).map fun z => c.toNat - z

/-- The digit among `0` to `9` with the value of a decimal digit; any other character is kept. -/
def plainDigit (c : Char) : Char := (digitOf? c).elim c Nat.digitChar

/-! ### Laws -/

/-- The digits of one script end before those of the next one begin. -/
theorem zeros_pairwise : zeros.Pairwise fun z next => z + 10 ≤ next := by
  decide +kernel

/-- A decimal digit has a value below ten. -/
theorem lt_ten_of_digitOf? {c : Char} {n : Nat} (h : digitOf? c = some n) : n < 10 := by
  obtain ⟨z, found, rfl⟩ := Option.map_eq_some_iff.1 h
  have bounds := List.find?_some found
  simp only [Bool.and_eq_true, decide_eq_true_eq] at bounds
  omega

/-- What `plainDigit` gives for a decimal digit is a digit of ASCII. -/
theorem isDigit_plainDigit {c : Char} {n : Nat} (h : digitOf? c = some n) :
    (plainDigit c).isDigit = true := by
  have digits : ∀ n < 10, (Nat.digitChar n).isDigit = true := by decide
  rw [plainDigit, h, Option.elim_some]
  exact digits n (lt_ten_of_digitOf? h)

end CheckedMemo.Text
