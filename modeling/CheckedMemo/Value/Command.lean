import CheckedMemo.Value.Equality
import CheckedMemo.Value.Snapshot

/-!
# Commands on memory

The steps by which a program makes, reads and changes values.  Each of them either gives a value or
fails, and a step that fails changes nothing.
-/

namespace CheckedMemo

namespace Memory

/-- A step on memory. -/
inductive Command where
  | newTuple (items : List Value)
  | newList (items : List Value)
  | newDict (entries : List (Value × Value))
  | newObject (payload : Value) (copier : Option Nat)
  | newNotANumber
  /-- Adds an item at the end of a list. -/
  | append (list item : Value)
  /-- Replaces an item of a list, or maps a key of a dictionary. -/
  | put (container index value : Value)
  /-- The item of a tuple, list or dictionary under an index or key. -/
  | item (container index : Value)
  /-- Whether two values are one and the same thing. -/
  | same (left right : Value)
  /-- Whether two values are equal. -/
  | equal (left right : Value)
  /-- Sets a variable. -/
  | assign (name : String) (value : Value)
  /-- The value of a variable. -/
  | lookup (name : String)

/-- The failure of an operation on a value of the wrong type. -/
def mistyped (what : String) : Fault := .thrown { kind := .badType, message := what }

/-- The place that an index stands for among `size` items; a negative index counts from the end. -/
def place? (size : Nat) (index : Int) : Option Nat :=
  if 0 ≤ index then if index < size then some index.toNat else none
  else if 0 ≤ index + size then some (index + size).toNat
  else none

/-- The failure to find an item at an index of a tuple or list. -/
def noPlace (what : String) : Fault :=
  .thrown { kind := .outOfRange, message := s!"{what} index out of range" }

/-- Whether an integer is a signed word of 64 bits, as an index has to be. -/
def isWord (n : Int) : Bool := -0x8000000000000000 ≤ n && n ≤ 0x7fffffffffffffff

/-- The failure to use an integer as an index that is no word. -/
def noWord : Fault :=
  .thrown { kind := .outOfRange, message := "cannot fit 'int' into an index-sized integer" }

/-- The place among `size` items that an index stands for; `what` says where it was looked for. -/
def placeOf (what : String) (size : Nat) (index : Value) : Except Fault Nat :=
  match index.toInt? with
  | none => .error (mistyped "indices must be integers")
  | some i => if isWord i then (place? size i).elim (.error (noPlace what)) .ok else .error noWord

/-- The item at an index of a tuple or list. -/
def pick (what : String) (items : Array Value) (index : Value) : Except Fault Value := do
  let n ← placeOf what items.size index
  (items[n]?).elim (.error (noPlace what)) .ok

/-- The failure to find a key in a dictionary. -/
def noKey (m : Memory) : Value → Fault
  | .text s => .missing (some s)
  | key => .missing (m.text? key)

/-- The value that a key of a dictionary maps to. -/
def valueAt (m : Memory) (d : Dict) (key : Value) : Except Fault Value := do
  let found ← d.item? key
  found.elim (.error (m.noKey key)) .ok

/-- The item of a tuple, list or dictionary under an index or key. -/
def item (m : Memory) (container index : Value) : Except Fault Value :=
  match container with
  | .tuple _ items => pick "tuple" items.toArray index
  | .list a | .dict a =>
    match m.contents? a with
    | some (.list items) => pick "list" items index
    | some (.dict d) => m.valueAt d index
    | _ => .error (mistyped "only tuples, lists and dictionaries have items")
  | _ => .error (mistyped "only tuples, lists and dictionaries have items")

/-- Adds an item at the end of a list. -/
def append (m : Memory) (list item : Value) : Except Fault Value × Memory :=
  match list with
  | .list a => (.ok .null, m.modify a (Container.push item))
  | _ => (.error (mistyped "only lists can be appended to"), m)

/-- How contents change where an item of a list is replaced, or a key of a dictionary mapped. -/
def replacement (m : Memory) (address : Nat) (index value : Value) :
    Except Fault (Container → Container) :=
  match m.contents? address with
  | some (.list items) => do
    let n ← placeOf "list assignment" items.size index
    return Container.set n value
  | some (.dict d) => do
    let d ← d.put index value
    return fun _ => .dict d
  | _ => .error (mistyped "only lists and dictionaries can be changed")

/-- Replaces an item of a list, or maps a key of a dictionary. -/
def put (m : Memory) (container index value : Value) : Except Fault Value × Memory :=
  match container with
  | .list a | .dict a =>
    match m.replacement a index value with
    | .ok f => (.ok .null, m.modify a f)
    | .error e => (.error e, m)
  | _ => (.error (mistyped "only lists and dictionaries can be changed"), m)

/-- The reply to a step that makes a new value. -/
def made (new : Value × Memory) : Except Fault Value × Memory := (.ok new.1, new.2)

/-- Performs a step. -/
def run (m : Memory) : Command → Except Fault Value × Memory
  | .newTuple items => made (m.newTuple items)
  | .newList items => made (m.newList items)
  | .newDict entries =>
    match Dict.ofList entries with
    | .ok d => made (m.newDict d)
    | .error f => (.error f, m)
  | .newObject payload copier => made (m.newObject payload copier)
  | .newNotANumber => made m.newNotANumber
  | .append list item => m.append list item
  | .put container index value => m.put container index value
  | .item container index => (m.item container index, m)
  | .same left right => (.ok (.bool (left.same right)), m)
  | .equal left right => (.ok (.bool (m.equal left right)), m)
  | .assign name value => (.ok value, { m with bindings := m.bindings.insert name value })
  | .lookup name =>
    match m.bindings.get? name with
    | some v => (.ok v, m)
    | none => (.error (.unknown name), m)

end Memory

end CheckedMemo
