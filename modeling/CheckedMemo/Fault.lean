import CheckedMemo.Guard
import CheckedMemo.Log.Level
import CheckedMemo.Text.Numeral
import CheckedMemo.Text.Quoted
import CheckedMemo.Value.Key

/-!
# Faults

`Fault` lists the causes for which an evaluation ends without a value: a program's own failure, a
broken calling contract of a cell or cache, or a bad argument.  Everything that can be asked about a
fault is a function of its cause: its kind, its message and, for broken contracts, the key and the
operation of the request that was refused.  Kinds form a tree, so that a handler for a kind also
catches the kinds below it.
-/

namespace CheckedMemo

/-! ### Kinds -/

/-- The kinds of fault. -/
inductive Kind where
  | anything
  | interrupt
  | failure
  | runtime
  | badValue
  | badType
  | lookup
  | arithmetic
  | exhausted
  | missingAttribute
  | missingKey
  | outOfRange
  | divisionByZero
  | usage
  | borrow
  | reentrant
  | notPopulated
  deriving DecidableEq, Repr

namespace Kind

/-- The name under which a kind is reported. -/
def name : Kind → String
  | .anything => "BaseException"
  | .interrupt => "KeyboardInterrupt"
  | .failure => "Exception"
  | .runtime => "RuntimeError"
  | .badValue => "ValueError"
  | .badType => "TypeError"
  | .lookup => "LookupError"
  | .arithmetic => "ArithmeticError"
  | .exhausted => "StopIteration"
  | .missingAttribute => "AttributeError"
  | .missingKey => "KeyError"
  | .outOfRange => "IndexError"
  | .divisionByZero => "ZeroDivisionError"
  | .usage => "UsageFault"
  | .borrow => "BorrowError"
  | .reentrant => "ReentrantComputeError"
  | .notPopulated => "NotPopulatedError"

/-- Every kind, each after the kinds above it. -/
def all : List Kind :=
  [.anything, .interrupt, .failure, .runtime, .badValue, .badType, .lookup, .arithmetic, .exhausted,
   .missingAttribute, .missingKey, .outOfRange, .divisionByZero, .usage, .borrow, .reentrant,
   .notPopulated]

/-- The kind reported under a name. -/
def ofName? (s : String) : Option Kind := all.find? (·.name = s)

/-- A kind is found again under its own name. -/
@[simp] theorem ofName?_name (k : Kind) : ofName? k.name = some k := by
  cases k <;> decide

/-- A kind and the kinds above it, from the kind itself to the root. -/
def lineage (k : Kind) : List Kind :=
  match k with
  | .anything => [k]
  | .interrupt | .failure => [k, .anything]
  | .runtime | .badValue | .badType | .lookup | .arithmetic | .exhausted | .missingAttribute =>
    [k, .failure, .anything]
  | .missingKey | .outOfRange => [k, .lookup, .failure, .anything]
  | .divisionByZero => [k, .arithmetic, .failure, .anything]
  | .usage => [k, .runtime, .failure, .anything]
  | .borrow | .notPopulated => [k, .usage, .runtime, .failure, .anything]
  | .reentrant => [k, .borrow, .usage, .runtime, .failure, .anything]

/-- Whether a handler for `handled` catches faults of kind `k`. -/
def isA (k handled : Kind) : Bool := k.lineage.contains handled

/-- Whether a kind stands for a broken calling contract, and so carries a key and an operation. -/
def isUsage (k : Kind) : Bool := k.isA .usage

end Kind

/-! ### Causes -/

/-- A key as it is shown: the value itself and its text at the time of the request. -/
structure Spelled where
  value : Value
  text : String

/-- A failure that a program makes up itself.  The key and the operation are reported only for the
kinds that stand for broken contracts. -/
structure Thrown where
  kind : Kind
  message : String := ""
  key : Value := .null
  operation : Option String := none

/-- The causes for which an evaluation ends without a value. -/
inductive Fault where
  /-- A program failed of its own accord. -/
  | thrown (failure : Thrown)
  /-- A view was requested on a guarded thing while other views were in the way. -/
  | conflict (label : Label) (mode : Mode) (active : Active) (key : Spelled)
  /-- A computation asked for the key that it computes. -/
  | reentrant (label : Label) (key : Spelled)
  /-- A key was asked for while another thread computes it. -/
  | busy (label : Label) (key : Spelled)
  /-- A key was retrieved before it was populated. -/
  | notPopulated (label : Label) (hint : Option String) (key : Spelled)
  /-- A stored value was asked for under a key that has none. -/
  | absent (label : Label) (key : Spelled)
  /-- A value that has no key was used as one. -/
  | unhashable (what : Unhashable)
  /-- A value was to be shown in which an integer has too many digits to be written. -/
  | unspellable
  /-- A dictionary was asked for a key that it does not have; `key` is its text, if it has one. -/
  | missing (key : Option String)
  /-- A part of a log event that has to be a text was a value of another type. -/
  | notText (type : String)
  /-- A log event was said to stand for a record, and its record was a value of another type. -/
  | notRecord (type : String)
  /-- A name was used under which nothing suitable is known. -/
  | unknown (name : String)
  /-- An override was to be installed on a query that the providers do not have. -/
  | unknownQuery (query : String)
  /-- An override was to be installed over its own hook. -/
  | alreadyOverridden (query : String)
  /-- A query was made that the providers do not have. -/
  | noProvider (query : String)
  /-- An environment variable holds no flag. -/
  | badFlag (setting : String)
  /-- An environment variable holds no level. -/
  | badLevelSetting (setting : String)
  /-- Logging was to be configured with a text that is no level. -/
  | badLevel (text : String)

namespace Fault

/-- The kind of a fault. -/
def kind : Fault → Kind
  | .thrown failure => failure.kind
  | .conflict .. => .borrow
  | .reentrant .. => .reentrant
  | .busy .. => .borrow
  | .notPopulated .. => .notPopulated
  | .absent .. | .missing .. | .unknown .. | .unknownQuery .. | .noProvider .. => .missingKey
  | .unhashable .. | .notText .. => .badType
  | .notRecord .. => .missingAttribute
  | .unspellable | .alreadyOverridden .. | .badFlag .. | .badLevelSetting .. | .badLevel .. =>
    .badValue

/-- The message of the failure to show an integer of too many digits. -/
def unspellableMessage : String :=
  s!"Exceeds the limit ({Text.maxDigits} digits) for integer string conversion; " ++
    "use sys.set_int_max_str_digits() to increase the limit"

/-- The message of a fault. -/
def message : Fault → String
  | .thrown failure => failure.message
  | .conflict label mode active key =>
    s!"{label.text}: cannot acquire {mode.name} view for key {key.text}; " ++
      s!"{active.describe} view already active"
  | .reentrant label key =>
    s!"{label.text}: compute for key {key.text} re-entered get for the same key"
  | .busy label key => s!"{label.text}: key {key.text} is being computed on another thread"
  | .notPopulated label hint key =>
    let base := s!"{label.text}: key {key.text} was retrieved before it was populated"
    match hint with
    | some more => s!"{base}. {more}"
    | none => base
  | .absent label key => s!"{label.text}: no cached value for key {key.text}"
  | .unhashable what => s!"unhashable type: '{what.name}'"
  | .unspellable => unspellableMessage
  | .missing key => key.getD ""
  | .notText type => s!"can only concatenate str (not \"{type}\") to str"
  | .notRecord type => s!"'{type}' object has no attribute 'name'"
  | .unknown name => name
  | .unknownQuery query => s!"unknown query: {Text.quoted query}"
  | .alreadyOverridden query => s!"query {Text.quoted query} is already overridden"
  | .noProvider query => query
  | .badFlag setting => s!"{setting} must be one of: 0, 1"
  | .badLevelSetting setting => s!"{setting} must be one of: {Level.choices}"
  | .badLevel text => s!"Invalid log level {Text.quoted text}. Valid levels: {Level.choices}"

/-- Whether a fault can be described: not if its message is to show what has no text. -/
def isDescribable : Fault → Bool
  | .missing none => false
  | _ => true

/-- The key of the request that a fault reports as refused; nothing for other faults. -/
def key? : Fault → Option Value
  | .thrown failure => if failure.kind.isUsage then some failure.key else none
  | .conflict _ _ _ key | .reentrant _ key | .busy _ key | .notPopulated _ _ key => some key.value
  | _ => none

/-- The operation that a fault reports as refused. -/
def operation? : Fault → Option String
  | .thrown failure => if failure.kind.isUsage then failure.operation else none
  | .conflict _ mode _ _ => some mode.name
  | .reentrant .. | .busy .. => some "get"
  | .notPopulated .. => some "retrieve"
  | _ => none

end Fault

end CheckedMemo
