import CheckedMemo.Cache.Request
import CheckedMemo.Settings
import CheckedMemo.Value.Command

/-!
# Commands

The steps of a program that run no code of its own: they look at the caches and cells of a session,
open and close named views, create objects, change provider tables, and deal with settings and
logging.  What the name of a cell or cache refers to may change while the arguments of a command are
evaluated, so these commands are given the place that was found.  Other objects are referred to by
the names they were given; a command that meets a name with nothing of the right kind behind it
fails.
-/

namespace CheckedMemo

/-- What a command on a cell or cache is about. -/
inductive Target where
  /-- The object with a name.  A per-thread cache or an override stands for the part that belongs to
  the current thread. -/
  | named (name : String)
  /-- The artifacts of an override that belong to the current thread. -/
  | artifacts (override : Nat)
  /-- The part of the session's own per-thread cache that belongs to the current thread. -/
  | common
  deriving DecidableEq, Repr

/-- Where a target was found. -/
structure Place where
  /-- The number of the cell or cache. -/
  id : Nat
  /-- What to add to the message when a key was not populated. -/
  hint : Option String := none
  deriving DecidableEq, Repr

/-- Looking at a cell or cache. -/
inductive Inspection where
  | contains (place : Place) (key : Value)
  | size (place : Place)
  /-- The number of hits and the number of misses. -/
  | stats (place : Place)
  | label (place : Place)
  /-- The number of active read views. -/
  | readers (place : Place)
  /-- Whether any view is active. -/
  | isBorrowed (place : Place)
  /-- The stored value of a key that has to be populated. -/
  | retrieve (place : Place) (key : Value)

/-- Views that are opened and closed by name. -/
inductive ViewCommand where
  | isOpen (name : String)
  /-- Opens a view, which gives the content of a cell and nothing for a cache. -/
  | openAs (name : String) (place : Place) (mode : Mode) (key : Value)
  /-- Closes a view, and says whether it was open; if it was, a failure may follow. -/
  | close (name : String) (failure : Option Thrown)

/-- Making objects.  A name that is in use goes over to the new object. -/
inductive Creation where
  | cell (name : String) (content : Value) (label : Option String)
  | stable (name : String) (label : Option String)
  | value (name : String) (label : Option String)
  | scoped (name : String) (label hint : Option String)
  | confined (name : String) (label hint : Option String)
  | override (name query : String) (extract : Nat)
  | providers (name : String)

/-- Changing tables of callable code. -/
inductive TableCommand where
  | define (function : String) (code : Nat)
  | provide (providers query : String) (code : Nat)
  /-- Copies an entry to another query, maybe of another table. -/
  | alias (providers query otherProviders otherQuery : String)
  | withdraw (providers query : String)
  /-- The queries of a table, in ascending order. -/
  | queries (providers : String)
  /-- Puts the hook of an override in front of the provider of its query. -/
  | install (override providers : String)

/-- Settings and logging. -/
inductive SettingsCommand where
  /-- Sets and unsets environment variables. -/
  | setEnvironment (changes : List (String × Option String))
  | readSettings
  | readLevel
  | readTiming
  /-- Given settings, as a dictionary. -/
  | showSettings (settings : Settings)
  /-- Configures logging, and gives the name of the level now in force. -/
  | configure (level : String) (json : Bool)
  /-- Configures logging by the settings that the environment holds. -/
  | configureFromEnvironment
  /-- Logs an event, which fails if the event is to be rendered and its fields do not suit their
  meaning. -/
  | log (event : Event)

/-- A step that runs no code of the program. -/
inductive Command where
  | memory (command : Memory.Command)
  | inspect (inspection : Inspection)
  | view (command : ViewCommand)
  | create (creation : Creation)
  | table (command : TableCommand)
  | settings (command : SettingsCommand)
  /-- Notes a value in the journal of the session, which fails if the value cannot be written. -/
  | mark (value : Value)
  /-- The text of a value as messages show it. -/
  | spell (value : Value)

end CheckedMemo
