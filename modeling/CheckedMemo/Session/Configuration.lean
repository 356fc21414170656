import CheckedMemo.Session.Basic

/-!
# Settings and logging of a session

The environment of a session can change at any time and is read afresh whenever a setting is needed.
Logging is configured by a level and a choice of output; a configuration that is refused changes
nothing.  An event that a program logs is refused if it cannot be rendered.
-/

namespace CheckedMemo

/-- The environment after variables are set and unset. -/
def Environment.change (env : Environment) (changes : List (String × Option String)) :
    Environment :=
  changes.foldl
    (fun env c =>
      match c.2 with
      | some text => env.insert c.1 text
      | none => env.erase c.1)
    env

namespace Session

/-- Settings as a new dictionary. -/
def settingsValue (s : Session) (t : Settings) : Except Fault Value × Session :=
  let entries : List (Value × Value) :=
    [(.text "log_level", .text t.level), (.text "log_json", .bool t.json),
      (.text "timing_enabled", .bool t.timing)]
  let (reply, m) := s.memory.run (.newDict entries)
  (reply, { s with memory := m })

/-- Configures logging, and gives the name of the level now in force. -/
def configure (s : Session) (level : String) (json : Bool) : Except Fault Value × Session :=
  match Logging.ofText level json with
  | .error f => (.error f, s)
  | .ok l => (.ok (.text l.level.name), { s with sink := s.sink.configure l })

/-- Performs a command on settings and logging. -/
def settings (s : Session) : SettingsCommand → Except Fault Value × Session
  | .setEnvironment changes => (.ok .null, { s with environment := s.environment.change changes })
  | .readSettings =>
    match s.environment.settings with
    | .ok t => s.settingsValue t
    | .error f => (.error f, s)
  | .readLevel => (s.environment.level.map fun l => .text l.name, s)
  | .readTiming => (s.environment.timing.map .bool, s)
  | .showSettings t => s.settingsValue t
  | .configure level json => s.configure level json
  | .configureFromEnvironment =>
    match s.environment.settings with
    | .ok t => s.configure t.level t.json
    | .error f => (.error f, s)
  | .log event => s.logChecked event

end Session

end CheckedMemo
