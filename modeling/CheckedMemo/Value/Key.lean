import CheckedMemo.Value.Basic

/-!
# Keys

Caches look values up by their key, a canonical form in which two values are equal exactly if they
are interchangeable as keys: numbers by the rational they denote, whatever their type, so that `1`,
`true` and `1.0` share a key, and so do `0.0` and `-0.0`; text and bytes by their content, never
mixed; tuples item by item; objects, and what is not a number, by identity.  Lists and dictionaries
can change under a cache and have no key, nor has a tuple that holds one at any depth.

A key is a list of symbols.  It also carries a digest of them, which tells most keys that differ
apart at once; since the digest is worked out from the symbols, it makes no other difference
(`Key.ofAtoms_inj`).
-/

namespace CheckedMemo

/-! ### Symbols -/

/-- One symbol of a key. -/
inductive Atom where
  | null
  | number (x : Rat)
  | infinite (negative : Bool)
  | notANumber (serial : Nat)
  | text (s : String)
  | bytes (bs : List UInt8)
  | object (address : Nat)
  /-- A tuple of `size` items, whose symbols follow. -/
  | tuple (size : Nat)
  deriving DecidableEq

/-- Works a number into a digest. -/
def mixDigest (digest n : UInt64) : UInt64 := 1000003 * digest + n

/-- The digest of a symbol. -/
def Atom.digest : Atom → UInt64
  | .null => 1
  | .number x => mixDigest (.ofInt x.num) (.ofNat x.den)
  | .infinite negative => if negative then 3 else 2
  | .notANumber serial => mixDigest 4 (.ofNat serial)
  | .text s => s.toList.foldl (fun d c => mixDigest d c.val.toUInt64) 5
  | .bytes bs => bs.foldl (fun d b => mixDigest d b.toUInt64) 6
  | .object address => mixDigest 7 (.ofNat address)
  | .tuple size => mixDigest 8 (.ofNat size)

/-! ### Keys -/

/-- The canonical form of a value as a key: its symbols, each tuple ahead of its items, and their
digest. -/
structure Key where
  digest : UInt64
  atoms : List Atom
  deriving DecidableEq

namespace Key

/-- The key with given symbols. -/
def ofAtoms (atoms : List Atom) : Key := ⟨atoms.foldl (fun d a => mixDigest d a.digest) 0, atoms⟩

/-- Keys are equal exactly if their symbols are. -/
@[simp] theorem ofAtoms_inj {as bs : List Atom} : ofAtoms as = ofAtoms bs ↔ as = bs :=
  ⟨congrArg atoms, congrArg ofAtoms⟩

end Key

/-- The kinds of value that have no key. -/
inductive Unhashable where
  | list
  | dict
  deriving DecidableEq, Repr

/-- The name of a kind of value that has no key. -/
def Unhashable.name : Unhashable → String
  | .list => "list"
  | .dict => "dict"

/-- The symbol of a binary number. -/
def Binary64.atom : Binary64 → Atom
  | .finite negative mantissa exponent _ =>
    .number (if negative then -scale mantissa exponent else scale mantissa exponent)
  | .infinite negative => .infinite negative

namespace Value

/-- The symbol of a value that is neither a tuple nor without a key. -/
def atom? : Value → Option Atom
  | .null => some .null
  | .bool b => some (.number (if b then 1 else 0))
  | .int n => some (.number n)
  | .real x => some x.atom
  | .notANumber i => some (.notANumber i)
  | .text s => some (.text s)
  | .bytes bs => some (.bytes bs)
  | .object a => some (.object a)
  | .tuple .. | .list _ | .dict _ => none

mutual

/-- The symbols of a value, or the first thing in it, from left to right, that has none. -/
def atoms : Value → Except Unhashable (List Atom)
  | .null => .ok [.null]
  | .bool b => .ok [.number (if b then 1 else 0)]
  | .int n => .ok [.number n]
  | .real x => .ok [x.atom]
  | .notANumber i => .ok [.notANumber i]
  | .text s => .ok [.text s]
  | .bytes bs => .ok [.bytes bs]
  | .object a => .ok [.object a]
  | .tuple _ items => (itemAtoms items).map (.tuple items.length :: ·)
  | .list _ => .error .list
  | .dict _ => .error .dict

/-- The symbols of a list of values, one after the other. -/
def itemAtoms : List Value → Except Unhashable (List Atom)
  | [] => .ok []
  | v :: vs => do
    let first ← atoms v
    let rest ← itemAtoms vs
    return first ++ rest

end

/-- The key of a value, or what keeps it from having one. -/
def key (v : Value) : Except Unhashable Key := v.atoms.map Key.ofAtoms

/-- The key of a value that has a symbol is that symbol alone. -/
theorem key_of_atom? {v : Value} {a : Atom} (h : v.atom? = some a) :
    v.key = .ok (.ofAtoms [a]) := by
  cases v <;> simp_all [atom?, key, atoms, Except.map]

end Value

end CheckedMemo
