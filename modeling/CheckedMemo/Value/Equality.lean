import CheckedMemo.Value.Memory

/-!
# Equality of contents

Two values are equal if they show the same contents: numbers by the rational they denote, tuples and
lists item by item, dictionaries by their keys and the values under them, objects by identity.  What
is not a number equals nothing, but a container that holds it equals itself, because an item is
compared with itself by identity first.
-/

namespace CheckedMemo

namespace Value

mutual

/-- Whether two values are equal, given how lists and dictionaries compare.  Values
that are neither tuples, lists nor dictionaries are compared by their symbols in keys. -/
def equalBy (look : Value → Value → Bool) : Value → Value → Bool
  | .tuple _ vs, .tuple _ ws => itemsEqualBy look vs ws
  | .list a, .list b => look (.list a) (.list b)
  | .dict a, .dict b => look (.dict a) (.dict b)
  | .notANumber _, _ => false
  | v, w =>
    match v.atom?, w.atom? with
    | some a, some b => a = b
    | _, _ => false

/-- Whether two lists of values have equal items, given how lists and dictionaries compare. -/
def itemsEqualBy (look : Value → Value → Bool) : List Value → List Value → Bool
  | [], [] => true
  | v :: vs, w :: ws => (v.same w || equalBy look v w) && itemsEqualBy look vs ws
  | _, _ => false

end

end Value

/-- Whether two dictionaries have the same keys with equal values, given how values compare. -/
def Dict.equalBy (equal : Value → Value → Bool) (d e : Dict) : Bool :=
  d.size = e.size && d.entries.all fun entry =>
    match e.get? entry.1 with
    | some (_, w) => entry.2.2.same w || equal entry.2.2 w
    | none => false

namespace Memory

/-- Whether two lists or two dictionaries have equal contents; at most `depth` containers are
entered, one inside the other. -/
def containersEqual (m : Memory) (depth : Nat) (v w : Value) : Bool :=
  match depth with
  | 0 => v.same w
  | depth + 1 =>
    let look := m.containersEqual depth
    match v, w with
    | .list a, .list b =>
      match m.contents? a, m.contents? b with
      | some (.list vs), some (.list ws) => Value.itemsEqualBy look vs.toList ws.toList
      | _, _ => false
    | .dict a, .dict b =>
      match m.contents? a, m.contents? b with
      | some (.dict d), some (.dict e) => d.equalBy (Value.equalBy look) e
      | _, _ => false
    | _, _ => false

/-- Whether two values are equal. -/
def equal (m : Memory) (v w : Value) : Bool := v.equalBy (m.containersEqual m.heap.size) w

end Memory

end CheckedMemo
