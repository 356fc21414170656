import CheckedMemo.Log.Amount
import CheckedMemo.Log.Event
import CheckedMemo.Text.Terminal

/-!
# Pieces of text

The text of an event is made of pieces.  Line feeds and codes for styles have their effect in all of
them but the names of threads.  A label is rendered before the name of its thread is put in, so the
name counts for nothing where it is decided on quotes, and stands in the text as it is, whatever its
characters are.
-/

namespace CheckedMemo

/-! ### Quotes -/

/-- The characters for whose sake a text is quoted. -/
def ambiguous : List Char := ['\t', '\n', '\r', ' ', '"', '\'', '=']

/-- Whether a text stands without quotes: it has no blank of the line, no quote and no `=`. -/
def isPlain (s : String) : Bool := !s.toList.any ambiguous.contains

/-- A text as it is shown: in quotes unless it is plain. -/
def shown (s : String) : String := if isPlain s then s else Text.quoted s

/-! ### Pieces -/

/-- A piece of the text of an event. -/
inductive Piece where
  /-- A text in which line feeds and codes for styles have their effect. -/
  | text (s : String)
  /-- The name of a thread, which is shown as it is. -/
  | thread (name : Thread)
  deriving DecidableEq, Repr

namespace Piece

/-- The lines of a piece, without codes for styles and without amounts of time. -/
def lines : Piece → List (List Char)
  | .text s => Text.splitLines (hideAmounts [] false (Text.dropStyles 0 s.toList))
  | .thread name => [name.toList]

/-- The lines of pieces that stand one behind the other. -/
def joined (ps : List Piece) : List String :=
  (ps.foldr (fun p rest => Text.continueLines p.lines rest) [[]]).map String.ofList

end Piece

/-! ### The pieces of a field -/

/-- The pieces of a label behind a text.  A label that names a thread holds a `=`, and so is in
quotes. -/
def Label.piecesBehind (front : String) (l : Label) : List Piece :=
  match l.thread with
  | none => [.text (front ++ shown l.base)]
  | some thread =>
    let cs := l.base.toList
    let quote := Text.quoteMark cs
    let base := String.ofList (quote :: cs.flatMap (Text.escapeChar quote))
    [.text (front ++ base ++ "[thread="), .thread thread, .text (String.ofList [']', quote])]

namespace Scalar

/-- The text of a field's value without any quotes. -/
def bare : Scalar → String
  | .null => "None"
  | .bool b => if b then "True" else "False"
  | .int n => toString n
  | .text s => s
  | .label l => l.text
  | .duration => "#"

/-- The pieces of a field's value behind a text. -/
def piecesBehind (front : String) : Scalar → List Piece
  | .text s => [.text (front ++ shown s)]
  | .label l => l.piecesBehind front
  | v => [.text (front ++ v.bare)]

end Scalar

end CheckedMemo
