import CheckedMemo.Binary64.Decimal
import CheckedMemo.Script.Basic
import CheckedMemo.Text.Hexadecimal

/-!
# Terms for data

Literals, the parts of the scope, variables, arithmetic on integers, and operations on tuples,
lists, dictionaries and objects.
-/

namespace CheckedMemo.Script

/-! ### Literals -/

/-- A value that needs no evaluation. -/
def literal (v : Value) : Term := fun _ => .done v

/-- The failure to read an integer of `count` digits, which are too many. -/
def tooManyDigits (count : Nat) : Thrown where
  kind := .badValue
  message :=
    s!"Exceeds the limit ({Text.maxDigits} digits) for integer string conversion: " ++
      s!"value has {count} digits; use sys.set_int_max_str_digits() to increase the limit"

/-- The failure to read an integer from a text that is no literal, of which no more than 200
characters are shown. -/
def noInteger (text : String) : Thrown where
  kind := .badValue
  message :=
    "invalid literal for int() with base 10: " ++
      String.ofList ((Text.quoted text).toList.take 200)

/-- The failure to read a real from a text that is no literal. -/
def noReal (text : String) : Thrown where
  kind := .badValue
  message := "could not convert string to float: " ++ Text.quoted text

/-- An integer literal in decimal digits. -/
def integer (text : String) : Term := fun _ =>
  match Text.IntegerLiteral.ofText text with
  | .number n => .done (.int n)
  | .tooLong digits => .fail (tooManyDigits digits)
  | .malformed => .fail (noInteger text)

/-- A real literal.  What is not a number is a new value on each evaluation. -/
def real (text : String) : Term := fun _ =>
  match RealLiteral.ofText? text with
  | some (.number x) => .done (.real x)
  | some .notANumber => memory .newNotANumber
  | none => .fail (noReal text)

/-- The failure to read bytes from a text with no hexadecimal digit at a position that has to have
one. -/
def noBytes (position : Nat) : Thrown where
  kind := .badValue
  message := s!"non-hexadecimal number found in fromhex() arg at position {position}"

/-- A literal of bytes in hexadecimal digits. -/
def bytes (text : String) : Term := fun _ =>
  match Text.bytesOfHex text with
  | .ok bs => .done (.bytes bs)
  | .error position => .fail (noBytes position)

/-- A text repeated `n` times. -/
def repeated (s : String) (n : Nat) : Term := literal (.text (String.join (List.replicate n s)))

/-- A new tuple. -/
def tuple (items : List Term) : Term := fun sc => evalAll items sc fun vs => memory (.newTuple vs)

/-- A new list. -/
def list (items : List Term) : Term := fun sc => evalAll items sc fun vs => memory (.newList vs)

/-- Evaluates pairs of terms from left to right, and maps each key in turn in a dictionary. -/
def fill (d : Value) : List (Term × Term) → Scope → Program
  | [], _ => .done d
  | (t, u) :: rest, sc =>
    .bind (t sc) fun k => .bind (u sc) fun v => .andThen (memory (.put d k v)) (fill d rest sc)

/-- A new dictionary. -/
def dict (entries : List (Term × Term)) : Term := fun sc =>
  .bind (memory (.newDict [])) fun d => fill d entries sc

/-- A value inside `n` tuples of one item each. -/
def nestValue : Nat → Value → Program
  | 0, v => .done v
  | n + 1, v => .bind (memory (.newTuple [v])) (nestValue n)

/-- The value of a term inside `n` tuples of one item each. -/
def nested (n : Nat) (t : Term) : Term := fun sc => .bind (t sc) (nestValue n)

/-- A new object with a payload.  If `copier` is given, it makes the copies of the object. -/
def object (payload : Term) (copier : Option Term) : Term := fun sc =>
  .bind (payload sc) fun v =>
    match copier with
    | none => memory (.newObject v none)
    | some t => .store (body t) fun code => memory (.newObject v (some code))

/-! ### The scope -/

/-- The key of the current call. -/
def key : Term := fun sc => .done sc.key

/-- The further positional arguments of the current call. -/
def args : Term := fun sc => .done sc.args

/-- The named arguments of the current call, as a new dictionary. -/
def named : Term := fun sc => memory (.newDict (sc.named.map fun e => (.text e.1, e.2)))

/-- The description of the fault that was caught. -/
def caught : Term := fun sc => .done sc.caught

/-! ### Variables -/

/-- The value of a variable. -/
def lookup (name : String) : Term := fun _ => memory (.lookup name)

/-- Sets a variable, and gives its value. -/
def assign (name : String) (t : Term) : Term := fun sc =>
  .bind (t sc) fun v => memory (.assign name v)

/-! ### Operations -/

/-- An operation on the values of two terms. -/
def binary (command : Value → Value → Memory.Command) (t u : Term) : Term := fun sc =>
  .bind (t sc) fun v => .bind (u sc) fun w => memory (command v w)

/-- Whether two values are one and the same thing. -/
def same : Term → Term → Term := binary .same

/-- Whether two values are equal. -/
def equal : Term → Term → Term := binary .equal

/-- The item of a tuple, list or dictionary under an index or key. -/
def item : Term → Term → Term := binary .item

/-- Adds an item at the end of a list. -/
def append : Term → Term → Term := binary .append

/-- Replaces an item of a list, or maps a key of a dictionary. -/
def put (container index value : Term) : Term := fun sc =>
  .bind (container sc) fun c => .bind (index sc) fun i => .bind (value sc) fun v =>
    memory (.put c i v)

/-- An operation on two integers. -/
def arithmetic (operation : Int → Int → Value) (t u : Term) : Term := fun sc =>
  .bind (t sc) fun v => .bind (u sc) fun w =>
    match v.toInt?, w.toInt? with
    | some a, some b => .done (operation a b)
    | _, _ => .fail { kind := .badType, message := "operands must be integers" }

/-- The sum of two integers. -/
def add : Term → Term → Term := arithmetic fun a b => .int (a + b)

/-- The difference of two integers. -/
def sub : Term → Term → Term := arithmetic fun a b => .int (a - b)

/-- The product of two integers. -/
def mul : Term → Term → Term := arithmetic fun a b => .int (a * b)

/-- Whether one integer is less than another. -/
def less : Term → Term → Term := arithmetic fun a b => .bool (a < b)

end CheckedMemo.Script
