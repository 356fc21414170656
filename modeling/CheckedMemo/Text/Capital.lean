/-!
# Capital letters

The words that this library matches without regard to case are all spelled with the plain letters
`A` to `Z`.  Besides `a` to `z` there are two letters whose capital is one of these: the dotless `ı`
and the long `ſ`.  `capitalize` raises exactly those; any other letter keeps its form, because with
it the text is no such word in either form.
-/

namespace CheckedMemo.Text

/-- The capital of a letter whose capital is one of `A` to `Z`; any other character is kept. -/
def capitalChar (c : Char) : Char :=
  if c = '\u0131' then 'I' else if c = '\u017f' then 'S' else c.toUpper

/-- A text with `capitalChar` applied to each character. -/
def capitalize (s : String) : String := String.ofList (s.toList.map capitalChar)

end CheckedMemo.Text
