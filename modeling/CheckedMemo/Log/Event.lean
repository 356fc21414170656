import CheckedMemo.Fault

/-!
# Log events

An event has a name, a level, the name of the logger that it goes to, and fields.  It may be logged
for the exception in progress, which is then written with it.  The library itself logs four kinds of
event: a computation that a cache starts, the refusal of a request that
breaks a calling contract, the end of a timed block, and the installation of an override.
-/

namespace CheckedMemo

/-- The value of a field.  How long something took differs from run to run, so a duration is kept
without its amount. -/
inductive Scalar where
  | null
  | bool (b : Bool)
  | int (n : Int)
  | text (s : String)
  /-- The label of a cell or cache, which is a text. -/
  | label (l : Label)
  | duration
  deriving DecidableEq, Repr

/-- A log event. -/
structure Event where
  logger : String
  level : Level
  name : String
  fields : List (String × Scalar) := []
  /-- Whether it is logged for the exception in progress. -/
  forException : Bool := false
  deriving DecidableEq, Repr

namespace Event

/-- An event for a logger with a name; the logger without a name is the root of all loggers. -/
def ofLogger (logger : String) (level : Level) (name : String) (fields : List (String × Scalar)) :
    Event where
  logger := if logger = "" then "root" else logger
  level
  name
  fields

/-- The event logged for the exception in progress.  It asks to show the exception among its fields,
unless these say something about that. -/
def onException (e : Event) : Event :=
  let unasked := (e.fields.lookup "exc_info").isNone
  { e with
    fields := if unasked then e.fields ++ [("exc_info", .bool true)] else e.fields
    forException := true }

/-- The event that a method of a logger logs. -/
def ofMethod? (logger method name : String) (fields : List (String × Scalar)) : Option Event :=
  (Level.ofMethod? method).map fun level =>
    let e := ofLogger logger level name fields
    if method = "exception" then e.onException else e

/-- A cache starts to compute the value of a key. -/
def cacheMiss (label : Label) (key : Spelled) : Event where
  logger := "pinned_memo.cache"
  level := .debug
  name := "cache_miss"
  fields := [("cache", .label label), ("key", .text key.text)]

/-- A request was refused because it breaks a calling contract; `subject` names the field that holds
the label. -/
def usageFault (part subject : String) (label : Label) (operation : String) (key : Spelled) :
    Event where
  logger := "pinned_memo." ++ part
  level := .warning
  name := "usage_fault"
  fields := [(subject, .label label), ("operation", .text operation), ("key", .text key.text)]

/-- A timed block has ended. -/
def blockTimer (label : String) : Event where
  logger := "pinned_memo.timing"
  level := .debug
  name := "block_timer"
  fields := [("label", .text label), ("elapsed_ms", .duration)]

/-- An override was installed on a query. -/
def overrideInstalled (query : String) : Event where
  logger := "pinned_memo.overrides"
  level := .debug
  name := "query_override_installed"
  fields := [("query", .text query)]

end Event

/-- The event logged when a fault is reported: one for every request that broke a calling contract,
none for other faults. -/
def Fault.event? : Fault → Option Event
  | .conflict label mode _ key => some (.usageFault "cell" "cell" label mode.name key)
  | .reentrant label key | .busy label key => some (.usageFault "cache" "cache" label "get" key)
  | .notPopulated label _ key => some (.usageFault "scoped" "cache" label "retrieve" key)
  | _ => none

end CheckedMemo
