import CheckedMemo.Text.Quoted

/-!
# Hexadecimal text

Bytes are written as pairs of hexadecimal digits in lower case.  They are read from pairs of digits
in either case, with white space of ASCII around the pairs but not inside; `bytesOfHex_hexText` says
that what is written is read back.
-/

namespace CheckedMemo.Text

/-- The value of a hexadecimal digit; nothing for any other character. -/
def hexValue? (c : Char) : Option Nat :=
  if '0' ≤ c ∧ c ≤ '9' then some (c.toNat - '0'.toNat)
  else if 'a' ≤ c ∧ c ≤ 'f' then some (c.toNat - 'a'.toNat + 10)
  else if 'A' ≤ c ∧ c ≤ 'F' then some (c.toNat - 'A'.toNat + 10)
  else none

/-- Whether a character is white space of ASCII. -/
def isSpacing (c : Char) : Bool := c = ' ' || (0x09 ≤ c.toNat && c.toNat ≤ 0x0d)

/-- The bytes that pairs of digits spell, the first character standing at a position, or the first
position that has to have a digit and has none. -/
def bytesOfPairs (position : Nat) : List Char → Except Nat (List UInt8)
  | [] => .ok []
  | [c] =>
    if isSpacing c then .ok []
    else .error (if (hexValue? c).isSome then position + 1 else position)
  | c :: d :: rest =>
    if isSpacing c then bytesOfPairs (position + 1) (d :: rest)
    else
      match hexValue? c, hexValue? d with
      | some high, some low =>
        (bytesOfPairs (position + 2) rest).map ((16 * high + low).toUInt8 :: ·)
      | some _, none => .error (position + 1)
      | none, _ => .error position

/-- The bytes that a text spells, or the position of what keeps it from that: of a character outside
ASCII first of all. -/
def bytesOfHex (s : String) : Except Nat (List UInt8) :=
  match s.toList.findIdx? (0x7f < ·.toNat) with
  | some position => .error position
  | none => bytesOfPairs 0 s.toList

/-- The digits of bytes. -/
def hexChars (bs : List UInt8) : List Char := bs.flatMap fun b => hexDigits 2 b.toNat

/-- The text of bytes. -/
def hexText (bs : List UInt8) : String := String.ofList (hexChars bs)

/-! ### Laws -/

/-- A digit of ASCII that writes a number below sixteen is no space, and has that value. -/
theorem hexValue?_digitChar {n : Nat} (h : n < 16) :
    hexValue? n.digitChar = some n ∧ isSpacing n.digitChar = false ∧ n.digitChar.toNat ≤ 0x7f := by
  have all : ∀ n < 16,
      hexValue? n.digitChar = some n ∧ isSpacing n.digitChar = false ∧
        n.digitChar.toNat ≤ 0x7f := by
    decide
  exact all n h

/-- Pairs of digits that were written are read back. -/
theorem bytesOfPairs_hexChars (position : Nat) (bs : List UInt8) :
    bytesOfPairs position (hexChars bs) = .ok bs := by
  induction bs generalizing position with
  | nil => rfl
  | cons b bs ih =>
    have high := hexValue?_digitChar (n := b.toNat / 16 % 16) (by omega)
    have low := hexValue?_digitChar (n := b.toNat % 16) (by omega)
    have whole : 16 * (b.toNat / 16 % 16) + b.toNat % 16 = b.toNat := by
      have := b.toNat_lt
      omega
    have split : hexChars (b :: bs) =
        (b.toNat / 16 % 16).digitChar :: (b.toNat % 16).digitChar :: hexChars bs := rfl
    rw [split, bytesOfPairs, high.2.1, high.1, low.1]
    simp only [Bool.false_eq_true, if_false, ih, whole]
    simp [Except.map]

/-- The text of bytes is read back. -/
theorem bytesOfHex_hexText (bs : List UInt8) : bytesOfHex (hexText bs) = .ok bs := by
  have plain : (hexChars bs).findIdx? (0x7f < ·.toNat) = none := by
    rw [List.findIdx?_eq_none_iff]
    intro c mem
    obtain ⟨b, -, mem⟩ := List.mem_flatMap.1 mem
    have high := (hexValue?_digitChar (n := b.toNat / 16 % 16) (by omega)).2.2
    have low := (hexValue?_digitChar (n := b.toNat % 16) (by omega)).2.2
    have pair : hexDigits 2 b.toNat =
        [(b.toNat / 16 % 16).digitChar, (b.toNat % 16).digitChar] := rfl
    rw [pair] at mem
    simp only [List.mem_cons, List.not_mem_nil, or_false] at mem
    rcases mem with rfl | rfl <;> simp only [decide_eq_false_iff_not] <;> omega
  rw [bytesOfHex, hexText, String.toList_ofList, plain]
  exact bytesOfPairs_hexChars 0 bs

end CheckedMemo.Text
