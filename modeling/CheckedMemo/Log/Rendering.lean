import CheckedMemo.Log.Piece

/-!
# Rendering of log events

Once logging is configured, the events at or above the configured level are written, one after the
other, either as a record or as text: the level padded to nine characters, the event padded to
thirty, the logger, and the fields in the order of their names.  A field's text is quoted only where
it could be misread.  Before that, events are rendered as text too, but nobody sees it.

Some names of fields have a meaning of their own.  The level, the logger and the time are those of
the event, whatever its fields say.  A request to show the exception in progress shows nothing, for
none is in progress; an event that is logged for the exception in progress has a line below it that
says so.  In text, the name of a second logger stands behind the first, and a stack and an exception
stand on lines of their own below.  An event whose fields do not suit their meaning is not written
at all.
-/

namespace CheckedMemo

/-- A configuration of logging. -/
structure Logging where
  level : Level
  json : Bool
  deriving DecidableEq, Repr

/-- What becomes of log events. -/
inductive Sink where
  /-- They are collected as they are, and not rendered. -/
  | collected
  /-- They are rendered as text that nobody sees. -/
  | unseen
  /-- They are written as a configuration says. -/
  | written (logging : Logging)
  deriving DecidableEq, Repr

/-- The sink after logging is configured; events that are collected still are. -/
def Sink.configure (logging : Logging) : Sink → Sink
  | .collected => .collected
  | .unseen | .written _ => .written logging

/-- A line that is written: a record of an event, or a line of its text. -/
inductive Line where
  | record (e : Event)
  | console (text : String)
  deriving DecidableEq, Repr

/-- A text filled up with spaces to a width; never cut. -/
def padded (width : Nat) (s : String) : String :=
  s ++ String.ofList (List.replicate (width - s.length) ' ')

namespace Scalar

/-- The name of the type of a field's value. -/
def typeName : Scalar → String
  | .null => "NoneType"
  | .bool _ => "bool"
  | .int _ => "int"
  | .text _ | .label _ => "str"
  | .duration => "float"

/-- Whether a field's value counts as yes: all but null, false, zero and the empty text do. -/
def isYes : Scalar → Bool
  | .null => false
  | .bool b => b
  | .int n => n ≠ 0
  | .text s => s ≠ ""
  | .label l => l.text ≠ ""
  | .duration => true

end Scalar

namespace Event

/-! ### Fields -/

/-- The names that stand for what every line shows by itself. -/
def reserved : List String := ["level", "logger", "timestamp"]

/-- The names by which a record asks for the exception in progress or for the stack. -/
def requests : List String := ["exc_info", "stack_info"]

/-- The names of fields that have a place of their own in text. -/
def placed : List String := ["exc_info", "logger_name", "stack", "exception"]

/-- The fields whose names are not among some. -/
def fieldsBut (e : Event) (names : List String) : List (String × Scalar) :=
  e.fields.filter fun f => !names.contains f.1

/-- The value of a field that is there and not null. -/
def value? (e : Event) (name : String) : Option Scalar :=
  (e.fields.lookup name).filter (· ≠ .null)

/-- Whether an event makes a request. -/
def asks (e : Event) (request : String) : Bool := (e.value? request).any Scalar.isYes

/-! ### Records and text -/

/-- The record of an event. -/
def record (e : Event) : Event := { e with fields := e.fieldsBut (reserved ++ requests) }

/-- The text that a field puts on lines of its own, if it is there and not null. -/
def block? (e : Event) (name : String) : Except Fault (Option String) :=
  match e.value? name with
  | none => .ok none
  | some (.text s) => .ok (some s)
  | some (.label l) => .ok (some l.text)
  | some v => .error (.notText v.typeName)

/-- The rule below a stack. -/
def rule : String := String.ofList (List.replicate 79 '=')

/-- The text below the fields of an event: the stack, the exception, and a rule below the stack if
there is an exception or one is asked for. -/
def blocks (e : Event) : Except Fault String := do
  let stack ← e.block? "stack"
  let exception ← e.block? "exception"
  let ruled := e.asks "exc_info" || exception.isSome
  let upper := stack.elim "" fun s => "\n" ++ s ++ if ruled then "\n\n" ++ rule ++ "\n" else ""
  return upper ++ exception.elim "" fun s => "\n" ++ s

/-- What is written for the exception in progress, since there is none. -/
def noException : String := "NoneType: None"

/-- The text below the fields of an event, and the exception in progress on a line of its own if the
event is logged for that. -/
def below (e : Event) : Except Fault String := do
  let blocks ← e.blocks
  if !e.forException then return blocks
  let ended := blocks.toList.getLast? = some '\n'
  return (if ended then blocks else blocks ++ "\n") ++ noException

/-- The text of an event ahead of what stands on lines of its own. -/
def head (e : Event) : List Piece :=
  let fields := (e.fieldsBut (reserved ++ placed)).mergeSort fun f g => f.1 ≤ g.1
  let second := match e.fields.lookup "logger_name" with
    | some v => " [" ++ v.bare ++ "]"
    | none => ""
  .text ("[" ++ padded 9 e.level.word ++ "] " ++ padded 30 e.name ++ " [" ++ e.logger ++ "]" ++
    second) :: fields.flatMap fun f => f.2.piecesBehind (" " ++ f.1 ++ "=")

/-- The text of an event, line by line, without codes for styles and without amounts of time. -/
def console (e : Event) : Except Fault (List String) := do
  let below ← e.below
  return Piece.joined (e.head ++ [.text below])

/-- The lines of the record of an event. -/
def recordLines (e : Event) : List Line :=
  .record e.record :: if e.forException then [.console noException] else []

/-! ### Lines -/

/-- Fails if a field says that the event stands for a record, since no value of a field is one. -/
def checkRecord (e : Event) : Except Fault Unit :=
  match e.value? "_record" with
  | none => .ok ()
  | some v => .error (.notRecord v.typeName)

/-- The event with a stack if it asks for one, whatever stack it had of its own. -/
def withStack (e : Event) : Event :=
  if e.asks "stack_info" then { e with fields := ("stack", .text "") :: e.fieldsBut ["stack"] }
  else e

/-- The lines that are written for an event under a configuration. -/
def linesUnder (e : Event) (logging : Logging) : Except Fault (List Line) :=
  if e.level.rank < logging.level.rank then .ok []
  else do
    e.checkRecord
    if logging.json then return e.recordLines
    else
      let texts ← e.console
      return texts.map .console

/-- The lines that are written for an event. -/
def lines (e : Event) : Sink → Except Fault (List Line)
  | .collected => .ok []
  | .unseen => e.withStack.console.map fun _ => []
  | .written logging => e.linesUnder logging

end Event

end CheckedMemo
