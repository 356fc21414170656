import CheckedMemo.Cache.Request

/-!
# Stable caches

A stable cache stores the value computed for a key and gives out that very value for every later
request.  No view is held while a value is computed, so a computation may ask the same cache for
other keys.  Instead its key is marked with the thread that computes it, and a request for a marked
key is refused.

`start` answers a request and, on a miss, leaves the mark; `finish` ends the computation, whatever
its outcome: it stores the value if there is one and takes the mark away.  Both need a write view
for a moment, so views that are still active when the computation ends get in the way of `finish`:
then nothing is stored, the mark stays, and the refusal takes the place of the outcome.
-/

namespace CheckedMemo

/-- A cache that hands out the stored values themselves. -/
structure StableCache where
  guard : Guard
  /-- The stored values. -/
  slots : Table Key Value := ∅
  /-- The keys that are being computed, each with the thread that computes it. -/
  pending : Table Key Thread := ∅
  /-- The number of requests that found their key. -/
  hits : Nat := 0
  /-- The number of computed values that were stored. -/
  misses : Nat := 0

namespace StableCache

/-- The name of the cache in messages. -/
def label (c : StableCache) : Label := c.guard.label

/-- The stored value of a key, if there is one. -/
def find (c : StableCache) (r : Request) : Except Fault (Option Value) := do
  c.guard.allow .read r
  let k ← r.index
  return c.slots.get? k

/-- Whether a key has a stored value. -/
def contains (c : StableCache) (r : Request) : Except Fault Bool := do
  let found ← c.find r
  return found.isSome

/-- The stored value of a key, which has to be there. -/
def peek (c : StableCache) (r : Request) : Except Fault Value := do
  match ← c.find r with
  | some v => .ok v
  | none => .error (r.fault (.absent c.label))

/-- The number of stored values; `unkeyed` is the request, made without a key. -/
def size (c : StableCache) (unkeyed : Request) : Except Fault Nat := do
  c.guard.allow .read unkeyed
  return c.slots.size

/-- Marks a key as being computed by a thread, unless it is marked already. -/
def reserve (c : StableCache) (thread : Thread) (r : Request) (k : Key) :
    Except Fault StableCache := do
  c.guard.allow .write r
  match c.pending.get? k with
  | none => .ok { c with pending := c.pending.insert k thread }
  | some owner =>
    .error (r.fault (if owner = thread then .reentrant c.label else .busy c.label))

/-- Answers a request: with the stored value, or by marking the key for the thread that is to
compute it.  A key that cannot be shown is not computed, and no mark stays. -/
def start (c : StableCache) (thread : Thread) (r : Request) :
    Except Fault (Lookup StableCache) := do
  c.guard.allow .read r
  let k ← r.index
  match c.slots.get? k with
  | some v => .ok (.hit v { c with hits := c.hits + 1 })
  | none =>
    let c ← c.reserve thread r k
    let key ← r.spelled
    return .miss key k c

/-- How a computation ended for the cache. -/
structure Finish where
  cache : StableCache
  /-- The refusals met on the way, in order. -/
  refusals : List Fault
  outcome : Except Fault Value

/-- Stores the value of a key unless it has one, counts a miss, and takes the mark away. -/
def deposit (c : StableCache) (k : Key) (v : Value) : StableCache :=
  { c with
    slots := c.slots.insertIfNew k v
    pending := c.pending.erase k
    misses := c.misses + 1 }

/-- Takes the mark of a key away. -/
def withdraw (c : StableCache) (k : Key) : StableCache :=
  { c with pending := c.pending.erase k }

/-- Ends the computation of a key.  Where no view is in the way, a value is stored and the stored
value given out, and a fault is passed on.  Otherwise both attempts to write are refused, that of
storing a value and that of taking the mark away. -/
def finish (c : StableCache) (key : Spelled) (k : Key) (outcome : Except Fault Value) : Finish :=
  match c.guard.allow .write key.request, outcome with
  | .ok (), .ok v =>
    let c := c.deposit k v
    ⟨c, [], .ok ((c.slots.get? k).getD v)⟩
  | .ok (), .error f => ⟨c.withdraw k, [], .error f⟩
  | .error refusal, .ok _ => ⟨c, [refusal, refusal], .error refusal⟩
  | .error refusal, .error _ => ⟨c, [refusal], .error refusal⟩

/-- The stored value of a key that has to be populated: a key without one is a broken contract. -/
def retrieve (c : StableCache) (hint : Option String) (r : Request) : Except Fault Value := do
  if ← c.contains r then c.peek r else .error (r.fault (.notPopulated c.label hint))

/-! ### Laws -/

/-- A deposit gives the key a value unless it had one, and changes no other key. -/
@[simp] theorem get?_slots_deposit (c : StableCache) (k : Key) (v : Value) (x : Key) :
    (c.deposit k v).slots.get? x =
      if x = k then some ((c.slots.get? k).getD v) else c.slots.get? x :=
  Table.get?_insertIfNew ..

/-- A deposit takes the mark of the key away, and no other. -/
@[simp] theorem get?_pending_deposit (c : StableCache) (k : Key) (v : Value) (x : Key) :
    (c.deposit k v).pending.get? x = if x = k then none else c.pending.get? x :=
  Table.get?_erase ..

/-- A reservation succeeds exactly if no view is in the way and the key is not marked. -/
theorem reserve_isOk_iff (c : StableCache) (thread : Thread) (r : Request) (k : Key) :
    (c.reserve thread r k).isOk = true ↔
      c.guard.obstacle? .write = none ∧ c.pending.get? k = none := by
  unfold reserve Guard.allow
  cases c.guard.obstacle? .write with
  | some active => simp [bind, Except.bind, Except.isOk, Except.toBool]
  | none =>
    cases c.pending.get? k <;> simp [bind, Except.bind, Except.isOk, Except.toBool]

end StableCache

end CheckedMemo
