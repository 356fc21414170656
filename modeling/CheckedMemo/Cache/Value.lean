import CheckedMemo.Cache.Request

/-!
# Value caches

A value cache stores the value computed for a key and gives out copies of it.  The look-up, the
computation, the storing and the copying of one request all happen inside one write view, so a
request to the same cache from inside any of them is refused.  Reading a stored value makes its copy
inside a read view.
-/

namespace CheckedMemo

/-- A cache that hands out copies of the stored values. -/
structure ValueCache where
  guard : Guard
  /-- The stored values. -/
  slots : Table Key Value := ∅
  /-- The number of requests that found their key. -/
  hits : Nat := 0
  /-- The number of computed values that were stored. -/
  misses : Nat := 0

namespace ValueCache

/-- The name of the cache in messages. -/
def label (c : ValueCache) : Label := c.guard.label

/-- The cache with one more view. -/
def acquire (c : ValueCache) (mode : Mode) : ValueCache :=
  { c with guard := c.guard.acquire mode }

/-- Answers a request by taking a write view, which is held until the copy of the value is made.  A
key that cannot be shown is not computed, and no view stays. -/
def start (c : ValueCache) (r : Request) : Except Fault (Lookup ValueCache) := do
  c.guard.allow .write r
  let k ← r.index
  match c.slots.get? k with
  | some v => .ok (.hit v { c.acquire .write with hits := c.hits + 1 })
  | none =>
    let key ← r.spelled
    return .miss key k (c.acquire .write)

/-- Stores the computed value of a key and counts a miss. -/
def deposit (c : ValueCache) (k : Key) (v : Value) : ValueCache :=
  { c with slots := c.slots.insert k v, misses := c.misses + 1 }

/-- Whether a key has a stored value. -/
def contains (c : ValueCache) (r : Request) : Except Fault Bool := do
  c.guard.allow .read r
  let k ← r.index
  return c.slots.contains k

/-- The stored value of a key, which has to be there, and the cache with the read view that is held
until the copy of the value is made. -/
def openStored (c : ValueCache) (r : Request) : Except Fault (Value × ValueCache) := do
  c.guard.allow .read r
  let k ← r.index
  match c.slots.get? k with
  | some v => .ok (v, c.acquire .read)
  | none => .error (r.fault (.absent c.label))

/-- The number of stored values; `unkeyed` is the request, made without a key. -/
def size (c : ValueCache) (unkeyed : Request) : Except Fault Nat := do
  c.guard.allow .read unkeyed
  return c.slots.size

end ValueCache

end CheckedMemo
