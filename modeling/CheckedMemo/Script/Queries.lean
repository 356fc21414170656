import CheckedMemo.Script.Flow

/-!
# Terms for queries and settings

Provider tables, overrides, the environment, and logging.
-/

namespace CheckedMemo.Script

/-- Runs a command on a table. -/
def table (c : TableCommand) : Term := fun _ => .perform (.table c)

/-- Makes an override of a query, with a body that extracts artifacts. -/
def createOverride (name query : String) (extract : Term) : Term := fun _ =>
  .store (body extract) fun code => .perform (.create (.override name query code))

/-- Provides a body for a query. -/
def provide (providers query : String) (t : Term) : Term := fun _ =>
  .store (body t) fun code => .perform (.table (.provide providers query code))

/-- Makes a query.  Its provider is looked up before the arguments are evaluated. -/
def query (providers query : String) (key : Term) (args : List Term)
    (named : List (String × Term)) : Term := fun sc =>
  .locate (.provider providers query) fun code => evalCall key args named sc (.invoke code)

/-- Fetches the artifact that an override captures for a key.  The override and the provider table
are looked up after the arguments are evaluated. -/
def fetch (override providers : String) (key : Term) (args : List Term)
    (named : List (String × Term)) : Term := fun sc =>
  evalCall key args named sc fun call =>
    .resolve override providers fun id table => .fetch id table call

/-- Runs a command on settings or logging. -/
def settings (c : SettingsCommand) : Term := fun _ => .perform (.settings c)

/-- Logs an event. -/
def log (event : Event) : Term := settings (.log event)

end CheckedMemo.Script
