import CheckedMemo.Program.Command

/-!
# Programs

A program is what runs against the cells and caches of a session: the operations of the library,
sequencing, handlers for faults, changes of thread, and commands.  Whatever depends on a value that
comes up while a program runs is a function of it, so the body of a computation, of a view, of a
handler or of a provider is any function into programs.  Code that is kept for later calls is stored
in the session under a number.
-/

namespace CheckedMemo

/-- The arguments of a call: the key that is asked for, and further ones by position and by name.
`named` is for the names of further parameters.  Those of the key itself, and of the override and
the provider table of a fetch, are taken: a call that used them once more would bind a parameter
twice, and is no call of the library. -/
structure Call where
  key : Value
  positional : List Value := []
  named : List (String × Value) := []
  deriving Inhabited

/-- Where stored code is looked up. -/
inductive Source where
  /-- The provider of a query in the provider table with a name. -/
  | provider (providers query : String)
  /-- The provider of a query in the provider table with a number. -/
  | entry (table : Nat) (query : String)
  | function (name : String)
  deriving DecidableEq, Repr

/-- A program. -/
inductive Program where
  /-- Ends with a value. -/
  | done (value : Value)
  /-- Ends with a failure. -/
  | fail (failure : Thrown)
  /-- Runs a command. -/
  | perform (command : Command)
  /-- Runs `first`, and `next` on its value. -/
  | bind (first : Program) (next : Value → Program)
  /-- Runs `body`; a fault of one of the kinds is handed to `handler`. -/
  | attempt (body : Program) (kinds : List Kind) (handler : Fault → Program)
  /-- Runs `body` on another thread while this one waits. -/
  | on (thread : Thread) (body : Program)
  /-- Runs `body` in a timed block.  If `enabled` is left open, the environment decides. -/
  | timed (label : String) (enabled : Option Bool) (body : Program)
  /-- Looks a target up, and runs `next` on its place. -/
  | reach (target : Target) (next : Place → Program)
  /-- Runs `body`, given the content, inside a view. -/
  | view (place : Place) (mode : Mode) (key : Value) (body : Value → Program)
  /-- Asks a cache for the value of `key`, which `compute` computes if need be. -/
  | get (place : Place) (key : Value) (compute : Value → Program)
  /-- Asks a cache for the value of `key` without computing it. -/
  | peek (place : Place) (key : Value)
  /-- Makes a shallow copy of a value. -/
  | copy (value : Value)
  /-- Stores code, and runs `next` on its number. -/
  | store (body : Call → Program) (next : Nat → Program)
  /-- Looks stored code up, and runs `next` on its number. -/
  | locate (source : Source) (next : Nat → Program)
  /-- Calls stored code. -/
  | invoke (code : Nat) (call : Call)
  /-- Looks an override and a provider table up, and runs `next` on their numbers. -/
  | resolve (override providers : String) (next : Nat → Nat → Program)
  /-- Asks for the artifact of `call.key` that an override captures; its query is run on a provider
  table if need be. -/
  | fetch (override table : Nat) (call : Call)

namespace Program

instance : Inhabited Program := ⟨.done .null⟩

/-- Runs one program after another, for the value of the second. -/
def andThen (first second : Program) : Program := .bind first fun _ => second

/-- Looks up whether a key has a stored value. -/
def contains (place : Place) (key : Value) : Program := .perform (.inspect (.contains place key))

/-- Gives the stored value of a key that has to be populated. -/
def retrieve (place : Place) (key : Value) : Program := .perform (.inspect (.retrieve place key))

/-- Stores the value that `compute` computes for `key`, unless there is one, and gives nothing. -/
def populate (place : Place) (key : Value) (compute : Value → Program) : Program :=
  andThen (.get place key compute) (.done .null)

/-- Runs `yes` if a test gives true, else `no`. -/
def branch (test yes no : Program) : Program :=
  .bind test fun v =>
    match v with
    | .bool true => yes
    | _ => no

end Program

end CheckedMemo
