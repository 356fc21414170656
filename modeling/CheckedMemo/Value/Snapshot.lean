import CheckedMemo.Binary64.Shortest
import CheckedMemo.Value.Memory

/-!
# Snapshots

A snapshot is what can be seen of a value at one moment: the tree of its contents, cut off where a
tuple or container comes up again inside itself.  Messages show the text of a snapshot, in which
text and bytes are quoted, a tuple of one item has a comma after it, and numbers have their shortest
form.  An integer of too many digits cannot be written: a snapshot with one has no text, and no
snapshot is seen as a whole if there is one anywhere in it.
-/

namespace CheckedMemo

/-- What can be seen of a value at one moment. -/
inductive Snapshot where
  | null
  | bool (b : Bool)
  | int (n : Int)
  | real (s : String)
  | text (s : String)
  | bytes (bs : List UInt8)
  | tuple (items : List Snapshot)
  | list (items : List Snapshot)
  | dict (entries : List (Snapshot × Snapshot))
  | object (payload : Snapshot)
  /-- A tuple, list, dictionary or object inside itself. -/
  | again (s : String)
  deriving Inhabited, Repr

/-! ### Taking a snapshot -/

/-- What a snapshot is inside of at some point: a tuple, or the container at an address. -/
inductive Enclosure where
  | tuple (serial : Nat)
  | container (address : Nat)
  deriving DecidableEq, Repr

/-- How addresses are seen from inside of given enclosures: those of lists and dictionaries, and
those of objects. -/
structure Sight where
  container : List Enclosure → Nat → Snapshot
  object : List Enclosure → Nat → Snapshot

/-- The sight of addresses by which objects are seen with their payloads or without them. -/
def Sight.of (payloads : Bool) (look : List Enclosure → Nat → Snapshot) : Sight where
  container := look
  object := if payloads then look else fun _ _ => .object .null

namespace Value

mutual

/-- The snapshot of a value.  It stands inside the tuples `near` with no container between, and
beyond those inside the enclosures `far`.  A tuple is none of those near to it, for each of them
was made after its items. -/
def snapshotBy (sight : Sight) (far near : List Enclosure) : Value → Snapshot
  | .null => .null
  | .bool b => .bool b
  | .int n => .int n
  | .real x => .real x.text
  | .notANumber _ => .real "nan"
  | .text s => .text s
  | .bytes bs => .bytes bs
  | .tuple serial items =>
    if far.contains (.tuple serial) then .again "(...)"
    else .tuple (snapshotsBy sight far (.tuple serial :: near) items)
  | .list a | .dict a => sight.container (near ++ far) a
  | .object a => sight.object (near ++ far) a

/-- The snapshots of a list of values that stand inside the same enclosures. -/
def snapshotsBy (sight : Sight) (far near : List Enclosure) : List Value → List Snapshot
  | [] => []
  | v :: vs => snapshotBy sight far near v :: snapshotsBy sight far near vs

end

end Value

namespace Container

/-- What is shown of a container that comes up inside itself. -/
def again : Container → Snapshot
  | .list _ => .again "[...]"
  | .dict _ => .again "\x7b...\x7d"
  | .object .. => .again "<...>"

/-- The snapshot of a container whose contents stand inside the enclosures `path`. -/
def snapshotBy (sight : Sight) (path : List Enclosure) : Container → Snapshot
  | .list items => .list (Value.snapshotsBy sight path [] items.toList)
  | .dict entries =>
    .dict (entries.entries.map fun e =>
      (e.2.1.snapshotBy sight path [], e.2.2.snapshotBy sight path []))
  | .object payload _ => .object (payload.snapshotBy sight path [])

end Container

namespace Memory

/-- The snapshot of an address inside the enclosures `path`, with the payloads of objects or without
them; at most `depth` containers are entered, one inside the other. -/
def snapshotAt (m : Memory) (payloads : Bool) (depth : Nat) (path : List Enclosure)
    (address : Nat) : Snapshot :=
  match m.contents? address with
  | none => .null
  | some c =>
    if path.contains (.container address) then c.again
    else
      match depth with
      | 0 => c.again
      | depth + 1 =>
        c.snapshotBy (.of payloads (m.snapshotAt payloads depth)) (.container address :: path)

/-- How a memory is seen.  No more containers than there are can stand one inside the other without
one of them coming up again. -/
def sight (m : Memory) (payloads : Bool) : Sight :=
  .of payloads (m.snapshotAt payloads m.heap.size)

/-- The snapshot of a value. -/
def snapshot (m : Memory) (v : Value) : Snapshot := v.snapshotBy (m.sight true) [] []

end Memory

/-! ### The text of a snapshot -/

namespace Snapshot

/-- Texts between brackets, with a comma and a space between them. -/
def bracketed (left right : String) (texts : List String) : String :=
  left ++ ", ".intercalate texts ++ right

/-- Texts between parentheses; a comma follows a text that is alone. -/
def parenthesized : List String → String
  | [one] => "(" ++ one ++ ",)"
  | texts => bracketed "(" ")" texts

mutual

/-- The text of a snapshot, if it has one. -/
def toText? : Snapshot → Option String
  | .null => some "None"
  | .bool b => some (if b then "True" else "False")
  | .int n => Text.numeral? n
  | .real s => some s
  | .text s => some (Text.quoted s)
  | .bytes bs => some (Text.quotedBytes bs)
  | .tuple items => (toTexts? items).map parenthesized
  | .list items => (toTexts? items).map (bracketed "[" "]")
  | .dict entries => (entryTexts? entries).map (bracketed "\x7b" "\x7d")
  | .object _ => some "<object>"
  | .again s => some s

/-- The texts of a list of snapshots, if all of them have one. -/
def toTexts? : List Snapshot → Option (List String)
  | [] => some []
  | s :: rest => do
    let text ← toText? s
    let texts ← toTexts? rest
    return text :: texts

/-- The texts of the entries of a dictionary, if all of them have one. -/
def entryTexts? : List (Snapshot × Snapshot) → Option (List String)
  | [] => some []
  | (k, v) :: rest => do
    let key ← toText? k
    let value ← toText? v
    let texts ← entryTexts? rest
    return (key ++ ": " ++ value) :: texts

end

/-! ### Writing a snapshot -/

mutual

/-- Whether every integer in a snapshot can be written, those inside of objects included. -/
def isWritable : Snapshot → Bool
  | .int n => !Text.exceedsDigits Text.maxDigits n.natAbs
  | .tuple items | .list items => areWritable items
  | .dict entries => entriesWritable entries
  | .object payload => isWritable payload
  | .null | .bool _ | .real _ | .text _ | .bytes _ | .again _ => true

/-- Whether every integer in a list of snapshots can be written. -/
def areWritable : List Snapshot → Bool
  | [] => true
  | s :: rest => isWritable s && areWritable rest

/-- Whether every integer in the entries of a dictionary can be written. -/
def entriesWritable : List (Snapshot × Snapshot) → Bool
  | [] => true
  | (k, v) :: rest => isWritable k && isWritable v && entriesWritable rest

end

end Snapshot

namespace Memory

/-- The text of a value, if it has one.  It shows no payloads, so none are looked at. -/
def text? (m : Memory) (v : Value) : Option String :=
  (v.snapshotBy (m.sight false) [] []).toText?

/-- The snapshot of a value that is to be written. -/
def written (m : Memory) (v : Value) : Except Fault Snapshot :=
  let seen := m.snapshot v
  if seen.isWritable then .ok seen else .error .unspellable

end Memory

end CheckedMemo
