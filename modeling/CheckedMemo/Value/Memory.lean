import CheckedMemo.Fault
import CheckedMemo.Table

/-!
# Memory

Memory holds the contents of lists, dictionaries and objects by address, the variables of a session,
and the serial number for the next tuple or literal that needs an identity of its own.  Addresses
are given out in order and never taken back: what is allocated is new, and what was there before
keeps its place.
-/

namespace CheckedMemo

/-- The entries of a dictionary: under each key, the value first used as this key and the value it
maps to. -/
abbrev Dict := Table Key (Value × Value)

namespace Dict

/-- The dictionary with `k` mapped to `v`; an equal key that is already there keeps its spelling. -/
def put (d : Dict) (k v : Value) : Except Fault Dict :=
  match k.key with
  | .error u => .error (.unhashable u)
  | .ok key =>
    let spelling := ((d.get? key).map Prod.fst).getD k
    .ok (d.insert key (spelling, v))

/-- The value that `k` maps to. -/
def item? (d : Dict) (k : Value) : Except Fault (Option Value) :=
  match k.key with
  | .error u => .error (.unhashable u)
  | .ok key => .ok ((d.get? key).map Prod.snd)

/-- The dictionary of a list of entries, put in one after the other. -/
def ofList (entries : List (Value × Value)) : Except Fault Dict :=
  entries.foldlM (fun d e => d.put e.1 e.2) ∅

end Dict

/-- What is stored at an address. -/
inductive Container where
  | list (items : Array Value)
  | dict (entries : Dict)
  /-- An object with a payload; `copier` names the code that makes its copies, if it has its own. -/
  | object (payload : Value) (copier : Option Nat)
  deriving Inhabited

namespace Container

/-- The list with one more item at its end. -/
def push (item : Value) : Container → Container
  | .list items => .list (items.push item)
  | c => c

/-- The list with the item at a place replaced. -/
def set (place : Nat) (item : Value) : Container → Container
  | .list items => .list (items.setIfInBounds place item)
  | c => c

end Container

/-- The contents of all addresses, the variables, and the next serial number. -/
structure Memory where
  heap : Array Container := #[]
  bindings : Table String Value := ∅
  serial : Nat := 1

namespace Memory

/-- The contents of an address. -/
def contents? (m : Memory) (address : Nat) : Option Container := m.heap[address]?

/-- Stores contents at the next free address. -/
def allocate (m : Memory) (c : Container) : Nat × Memory :=
  (m.heap.size, { m with heap := m.heap.push c })

/-- Changes the contents of an address that is in use. -/
def modify (m : Memory) (address : Nat) (f : Container → Container) : Memory :=
  { m with heap := m.heap.modify address f }

/-- A new list. -/
def newList (m : Memory) (items : List Value) : Value × Memory :=
  let (a, m) := m.allocate (.list items.toArray)
  (.list a, m)

/-- A new dictionary. -/
def newDict (m : Memory) (entries : Dict) : Value × Memory :=
  let (a, m) := m.allocate (.dict entries)
  (.dict a, m)

/-- A new object. -/
def newObject (m : Memory) (payload : Value) (copier : Option Nat) : Value × Memory :=
  let (a, m) := m.allocate (.object payload copier)
  (.object a, m)

/-- A new tuple; there is only one tuple without items. -/
def newTuple (m : Memory) (items : List Value) : Value × Memory :=
  if items.isEmpty then (.emptyTuple, m)
  else (.tuple m.serial items, { m with serial := m.serial + 1 })

/-- A new value that is not a number. -/
def newNotANumber (m : Memory) : Value × Memory :=
  (.notANumber m.serial, { m with serial := m.serial + 1 })

/-! ### Laws -/

/-- A change concerns no other address. -/
theorem contents?_modify (m : Memory) (address : Nat) (f : Container → Container) (a : Nat) :
    (m.modify address f).contents? a =
      if address = a then (m.contents? a).map f else m.contents? a := by
  simp [modify, contents?, Array.getElem?_modify]

/-- Allocation changes no address that is in use. -/
theorem contents?_allocate (m : Memory) (c : Container) {a : Nat} (h : a < m.heap.size) :
    (m.allocate c).2.contents? a = m.contents? a := by
  simp [allocate, contents?, Array.getElem?_push, Nat.ne_of_lt h]

/-- The allocated address was not in use and holds the new contents. -/
theorem contents?_allocate_self (m : Memory) (c : Container) :
    m.contents? (m.allocate c).1 = none ∧ (m.allocate c).2.contents? (m.allocate c).1 = some c := by
  simp [allocate, contents?]

end Memory

end CheckedMemo
