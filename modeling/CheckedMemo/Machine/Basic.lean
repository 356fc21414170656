import CheckedMemo.Session.Hook
import CheckedMemo.Session.Perform

/-!
# The machine

A machine runs one program against a session.  Its control is a program to evaluate, a value to give
to the innermost frame of the stack, or a fault to raise there.  The stack says what is still to be
done: go on with a sequence, catch a fault, go back to a thread, end a timed block, release a view,
or end a computation that a cache has started.
-/

namespace CheckedMemo

/-- What a machine does next. -/
inductive Control where
  | eval (p : Program)
  | give (v : Value)
  | raise (f : Fault)

/-- What is to be done with the outcome of the program that runs. -/
inductive Frame where
  /-- Goes on with the value. -/
  | bind (next : Value → Program)
  /-- Hands a fault of one of the kinds to a handler. -/
  | attempt (kinds : List Kind) (handler : Fault → Program)
  /-- Goes back to a thread. -/
  | thread (back : Thread)
  /-- Logs the end of a timed block. -/
  | timer (label : String)
  /-- Releases a view of a resource. -/
  | release (id : Nat) (mode : Mode)
  /-- Ends the computation of a key for a stable cache. -/
  | computing (id : Nat) (key : Spelled) (index : Key)
  /-- Stores the computed value of a key in a value cache, and copies it. -/
  | storing (id : Nat) (index : Key)

/-- A program at work on a session. -/
structure Machine where
  control : Control
  stack : List Frame
  session : Session

namespace Machine

/-- The machine that is about to run a program. -/
def load (p : Program) (s : Session) : Machine := ⟨.eval p, [], s⟩

/-- Raises a fault, and logs the event that goes with it. -/
def refuse (f : Fault) (stack : List Frame) (s : Session) : Machine :=
  ⟨.raise f, stack, s.report f⟩

/-- Goes on with the reply to a command. -/
def reply (stack : List Frame) : Except Fault Value × Session → Machine
  | (.ok v, s) => ⟨.give v, stack, s⟩
  | (.error f, s) => refuse f stack s

/-- How the program has ended, if it has. -/
def outcome? (m : Machine) : Option (Except Fault Value) :=
  match m.control, m.stack with
  | .give v, [] => some (.ok v)
  | .raise f, [] => some (.error f)
  | _, _ => none

end Machine

end CheckedMemo
