import CheckedMemo.Text.Capital

/-!
# Log levels

The five levels of log events, in ascending order of severity, and how their names are read.
-/

namespace CheckedMemo

/-- The severity of a log event. -/
inductive Level where
  | debug
  | info
  | warning
  | error
  | critical
  deriving DecidableEq, Repr

namespace Level

/-- The levels in ascending order. -/
def all : List Level := [.debug, .info, .warning, .error, .critical]

/-- The rank of a level among the five. -/
def rank : Level → Nat
  | .debug => 0
  | .info => 1
  | .warning => 2
  | .error => 3
  | .critical => 4

/-- The name of a level in settings, in capitals. -/
def name : Level → String
  | .debug => "DEBUG"
  | .info => "INFO"
  | .warning => "WARNING"
  | .error => "ERROR"
  | .critical => "CRITICAL"

/-- The name of a level in log output, in small letters. -/
def word : Level → String
  | .debug => "debug"
  | .info => "info"
  | .warning => "warning"
  | .error => "error"
  | .critical => "critical"

/-- The names of the levels, as a list for messages. -/
def choices : String := ", ".intercalate (all.map name)

/-- The level with a name in capitals. -/
def ofName? (s : String) : Option Level := all.find? (·.name = s)

/-- The level with a word in small letters. -/
def ofWord? (s : String) : Option Level := all.find? (·.word = s)

/-- The level of the events that a method of a logger logs: there is a method for each level, two
levels have a second one, and one is for the exception in progress. -/
def ofMethod? : String → Option Level
  | "warn" => some .warning
  | "exception" => some .error
  | "fatal" => some .critical
  | s => ofWord? s

/-- Reads the name of a level in letters of either case. -/
def read? (s : String) : Option Level := ofName? (Text.capitalize s)

/-- A level is found again under its own name. -/
@[simp] theorem ofName?_name (l : Level) : ofName? l.name = some l := by
  cases l <;> decide

end Level

end CheckedMemo
