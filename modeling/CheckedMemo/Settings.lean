import CheckedMemo.Log.Rendering
import CheckedMemo.Table
import CheckedMemo.Text.Blank

/-!
# Settings

Three environment variables hold the settings: the log level, and one flag each for JSON output and
for block timers.  Their texts are read without the blanks at either end, a level in letters of
either case, a flag as `0` or `1`.  A variable that is not set counts as `INFO` or `0`.  The first
invalid variable, in the order level, JSON, timing, decides the error.
-/

namespace CheckedMemo

/-- The environment variables that are set. -/
abbrev Environment := Table String String

/-- The settings for logging and block timers.  The level is kept as a text, and checked when
logging is configured. -/
structure Settings where
  level : String := "INFO"
  json : Bool := false
  timing : Bool := false
  deriving DecidableEq, Repr

/-- The variable that holds the log level. -/
def levelVariable : String := "PINNED_MEMO_LOG_LEVEL"

/-- The variable that holds the flag for JSON output. -/
def jsonVariable : String := "PINNED_MEMO_LOG_JSON"

/-- The variable that holds the flag for block timers. -/
def timingVariable : String := "PINNED_MEMO_TIMING"

/-- Reads a flag. -/
def readFlag? (s : String) : Option Bool :=
  if s = "0" then some false else if s = "1" then some true else none

namespace Environment

/-- The text of a variable without the blanks at either end; `default` if it is not set. -/
def read (env : Environment) (name default : String) : String :=
  Text.strip ((env.get? name).getD default)

/-- The flag that a variable holds. -/
def flag (env : Environment) (name : String) : Except Fault Bool :=
  match readFlag? (env.read name "0") with
  | some b => .ok b
  | none => .error (.badFlag name)

/-- The log level. -/
def level (env : Environment) : Except Fault Level :=
  match Level.read? (env.read levelVariable "INFO") with
  | some l => .ok l
  | none => .error (.badLevelSetting levelVariable)

/-- The flag for block timers, whatever the other variables hold. -/
def timing (env : Environment) : Except Fault Bool := env.flag timingVariable

/-- All settings. -/
def settings (env : Environment) : Except Fault Settings := do
  let level ← env.level
  let json ← env.flag jsonVariable
  let timing ← env.timing
  return { level := level.name, json, timing }

end Environment

/-- The configuration of logging with a level, read in letters of either case but with its blanks,
and a choice of output. -/
def Logging.ofText (level : String) (json : Bool) : Except Fault Logging :=
  match Level.read? level with
  | some l => .ok ⟨l, json⟩
  | none => .error (.badLevel level)

end CheckedMemo
