import CheckedMemo.Script.Basic

/-!
# Terms for control

Sequences, choices, loops, functions, threads, timed blocks, and raising and handling faults.
-/

namespace CheckedMemo.Script

/-- Evaluates terms one after the other, for the value of the last. -/
def sequence : List Term → Term
  | [], _ => .done .null
  | [t], sc => t sc
  | t :: ts, sc => .andThen (t sc) (sequence ts sc)

/-- The value of `yes` if a test gives true, else that of `no`; the other one is not evaluated. -/
def choose (test yes no : Term) : Term := fun sc => .branch (test sc) (yes sc) (no sc)

/-- Evaluates a term `count` times, with a variable that counts up from `low`. -/
def loop (name : String) (low : Int) (count : Nat) (t : Term) : Term := fun sc =>
  match count with
  | 0 => .done .null
  | count + 1 =>
    .bind (memory (.assign name (.int low))) fun _ =>
      .bind (t sc) fun _ => loop name (low + 1) count t sc

/-- Notes a value in the journal. -/
def mark (t : Term) : Term := fun sc => .bind (t sc) fun v => .perform (.mark v)

/-- Evaluates a term on another thread. -/
def on (thread : Thread) (t : Term) : Term := fun sc => .on thread (t sc)

/-- Evaluates a term in a timed block. -/
def timed (label : String) (enabled : Option Bool) (t : Term) : Term := fun sc =>
  .timed label enabled (t sc)

/-- Defines a function. -/
def define (name : String) (t : Term) : Term := fun _ =>
  .store (body t) fun code => .perform (.table (.define name code))

/-- Calls a function, which is looked up after the key is evaluated. -/
def call (name : String) (key : Term) : Term := fun sc =>
  .bind (key sc) fun key => .locate (.function name) fun code => .invoke code { key }

/-! ### Faults -/

/-- A failure of a kind.  The kinds that stand for broken contracts do not go without a message. -/
def failure (kind : Kind) (message : Option String) : Thrown :=
  match message with
  | some message => { kind, message }
  | none =>
    if kind.isUsage then
      { kind := .badType
        message := "UsageFault.__init__() missing 1 required positional argument: 'message'" }
    else { kind }

/-- Raises a failure of a kind. -/
def raise (kind : Kind) (message : Option String) : Term := fun _ => .fail (failure kind message)

/-- Raises a failure that reports a key and an operation. -/
def raiseUsage (kind : Kind) (message : String) (key : Term) (operation : Option String) : Term :=
  fun sc => .bind (key sc) fun key => .fail { kind, message, key, operation }

/-- The value of an optional text. -/
def optionalText : Option String → Value
  | some s => .text s
  | none => .null

/-- The entries of the description of a fault. -/
def describe (f : Fault) : List (Value × Value) :=
  [(.text "error", .text f.kind.name), (.text "message", .text f.message)] ++
    match f.key? with
    | some key => [(.text "key", key), (.text "operation", optionalText f.operation?)]
    | none => []

/-- The failure to describe a fault whose message is to show what has no text. -/
def indescribable : Thrown where
  kind := .badValue
  message := Fault.unspellableMessage

/-- Evaluates a term; if it raises a fault of one of the kinds, evaluates `handler` instead, which
can refer to the description of the fault. -/
def attempt (kinds : List Kind) (t handler : Term) : Term := fun sc =>
  .attempt (t sc) kinds fun f =>
    if f.isDescribable then
      .bind (memory (.newDict (describe f))) fun caught => handler { sc with caught }
    else .fail indescribable

end CheckedMemo.Script
