import CheckedMemo.Text.Printable

/-!
# Quoted text

The quoted form of a text stands between single quotes, or between double quotes if the text holds a
single quote and no double one.  The quote in use and the backslash are escaped by a backslash; tab,
line feed and carriage return have their own escapes; any other unprintable character is written by
its code in two, four or eight hexadecimal digits, the fewest that hold it.  Bytes are quoted in the
same way under the mark `b`, where every byte outside the printable part of ASCII is written in
hexadecimal.
-/

namespace CheckedMemo.Text

/-- The quote used around a text: double only if that saves an escape. -/
def quoteMark (cs : List Char) : Char :=
  if cs.contains '\'' && !cs.contains '"' then '"' else '\''

/-- The last `width` hexadecimal digits of `n`, in lower case. -/
def hexDigits (width n : Nat) : List Char :=
  match width with
  | 0 => []
  | w + 1 => hexDigits w (n / 16) ++ [Nat.digitChar (n % 16)]

/-- The escape of a character by its code. -/
def codeEscape (n : Nat) : List Char :=
  if n < 0x100 then '\\' :: 'x' :: hexDigits 2 n
  else if n < 0x10000 then '\\' :: 'u' :: hexDigits 4 n
  else '\\' :: 'U' :: hexDigits 8 n

/-- A character as it is written between quotes `quote`. -/
def escapeChar (quote c : Char) : List Char :=
  if c = quote ∨ c = '\\' then ['\\', c]
  else if c = '\t' then ['\\', 't']
  else if c = '\n' then ['\\', 'n']
  else if c = '\r' then ['\\', 'r']
  else if isPrintable c then [c]
  else codeEscape c.toNat

/-- The quoted form of a text. -/
def quoted (s : String) : String :=
  let cs := s.toList
  let quote := quoteMark cs
  String.ofList (quote :: cs.flatMap (escapeChar quote) ++ [quote])

/-- A byte as it is written between quotes `quote`. -/
def escapeByte (quote : Char) (b : UInt8) : List Char :=
  if b < 0x7f then escapeChar quote (Char.ofNat b.toNat) else codeEscape b.toNat

/-- The quoted form of a list of bytes. -/
def quotedBytes (bs : List UInt8) : String :=
  let quote := quoteMark (bs.map fun b => Char.ofNat b.toNat)
  String.ofList ('b' :: quote :: bs.flatMap (escapeByte quote) ++ [quote])

end CheckedMemo.Text
