import CheckedMemo.Program.Basic

/-!
# Terms

Sessions are written in terms.  A term is a program that depends on a scope: the key and the further
arguments of the call whose body it belongs to, and the fault that the enclosing handler caught.
Terms are combined by the functions of these modules, one for each form; operands are evaluated from
left to right.
-/

namespace CheckedMemo.Script

/-- What a term can refer to without a name. -/
structure Scope where
  /-- The first argument of the call. -/
  key : Value := .null
  /-- The further positional arguments, as one tuple. -/
  args : Value := .emptyTuple
  /-- The named arguments. -/
  named : List (String × Value) := []
  /-- The description of the fault that was caught. -/
  caught : Value := .null
  deriving Inhabited

/-- A program that depends on a scope. -/
abbrev Term := Scope → Program

/-- Runs a command on memory. -/
def memory (c : Memory.Command) : Program := .perform (.memory c)

/-- Evaluates terms from left to right, and goes on with their values. -/
def evalAll : List Term → Scope → (List Value → Program) → Program
  | [], _, next => next []
  | t :: ts, sc, next => .bind (t sc) fun v => evalAll ts sc fun vs => next (v :: vs)

/-- Evaluates named terms from left to right, and goes on with their values. -/
def evalNamed : List (String × Term) → Scope → (List (String × Value) → Program) → Program
  | [], _, next => next []
  | (n, t) :: rest, sc, next =>
    .bind (t sc) fun v => evalNamed rest sc fun es => next ((n, v) :: es)

/-- A term as the body of a computation, which is called with a key alone. -/
def computing (t : Term) (key : Value) : Program := t { key }

/-- A term as the body of stored code: each call makes one tuple of its further arguments. -/
def body (t : Term) (call : Call) : Program :=
  .bind (memory (.newTuple call.positional)) fun args =>
    t { key := call.key, args, named := call.named }

/-- Evaluates the arguments of a call from left to right, and goes on with the call. -/
def evalCall (key : Term) (args : List Term) (named : List (String × Term)) (sc : Scope)
    (next : Call → Program) : Program :=
  .bind (key sc) fun key =>
    evalAll args sc fun positional =>
      evalNamed named sc fun named => next { key, positional, named }

end CheckedMemo.Script
