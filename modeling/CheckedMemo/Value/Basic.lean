import CheckedMemo.Binary64.Basic

/-!
# Values

The values that programs pass to caches and get back.  Numbers, text and bytes are plain data.
Lists, dictionaries and objects live in memory and are referred to by address.  A tuple is immutable
but still one thing among others with the same items, so it carries the number under which it was
made; so does what is not a number, which equals nothing but itself.  As a result two values are
equal in the logic exactly if they are one and the same thing.
-/

namespace CheckedMemo

/-- A value, as held by a program. -/
inductive Value where
  | null
  | bool (b : Bool)
  | int (n : Int)
  | real (x : Binary64)
  /-- What a real literal denotes that is not a number; each evaluation makes another one. -/
  | notANumber (serial : Nat)
  | text (s : String)
  | bytes (bs : List UInt8)
  | tuple (serial : Nat) (items : List Value)
  | list (address : Nat)
  | dict (address : Nat)
  | object (address : Nat)
  deriving Inhabited, Repr

namespace Value

/-- The one tuple without items. -/
def emptyTuple : Value := .tuple 0 []

/-- Whether two values are one and the same thing. -/
def same : Value → Value → Bool
  | .null, .null => true
  | .bool a, .bool b => a = b
  | .int a, .int b => a = b
  | .real a, .real b => a = b
  | .notANumber i, .notANumber j => i = j
  | .text a, .text b => a = b
  | .bytes a, .bytes b => a = b
  | .tuple i _, .tuple j _ => i = j
  | .list a, .list b => a = b
  | .dict a, .dict b => a = b
  | .object a, .object b => a = b
  | _, _ => false

/-- The integer that a value counts as: truth values count as one and zero. -/
def toInt? : Value → Option Int
  | .int n => some n
  | .bool b => some (if b then 1 else 0)
  | _ => none

end Value

end CheckedMemo
