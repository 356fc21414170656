import CheckedMemo.Label

/-!
# Guards

A guard does the bookkeeping for one shared thing: any number of read views may be active on it at a
time, and a write view excludes every other view.  A request that would break this is refused at
once, and what was refused leaves no trace.  Releasing a view removes that view and no other, so
views may be released in any order.
-/

namespace CheckedMemo

/-- What a view permits. -/
inductive Mode where
  | read
  | write
  deriving DecidableEq, Repr

/-- The name of a mode. -/
def Mode.name : Mode → String
  | .read => "read"
  | .write => "write"

/-- The views that stand in the way of a request. -/
inductive Active where
  | reads (count : Nat)
  | write
  deriving DecidableEq, Repr

/-- The views in the way, in words. -/
def Active.describe : Active → String
  | .reads count => s!"{count} read"
  | .write => "write"

/-- The views active on one shared thing. -/
structure Guard where
  /-- The name of the guarded thing in messages. -/
  label : Label
  /-- The number of active read views. -/
  readers : Nat := 0
  /-- Whether a write view is active. -/
  writing : Bool := false
  deriving DecidableEq, Repr

namespace Guard

/-- Whether any view is active. -/
def isBorrowed (g : Guard) : Bool := g.writing || 0 < g.readers

/-- What stands in the way of a view, if anything: a write view of every request, and read views of
a request to write. -/
def obstacle? (g : Guard) : Mode → Option Active
  | .read => if g.writing then some .write else none
  | .write =>
    if g.writing then some .write
    else if 0 < g.readers then some (.reads g.readers)
    else none

/-- The guard with one more view; meant for a view that nothing stands in the way of. -/
def acquire (g : Guard) : Mode → Guard
  | .read => { g with readers := g.readers + 1 }
  | .write => { g with writing := true }

/-- The guard with one view less. -/
def release (g : Guard) : Mode → Guard
  | .read => { g with readers := g.readers - 1 }
  | .write => { g with writing := false }

/-! ### Laws -/

/-- A view that is taken and released again leaves the guard as it was. -/
theorem release_acquire (g : Guard) (m : Mode) (h : g.obstacle? m = none) :
    (g.acquire m).release m = g := by
  obtain ⟨label, readers, writing⟩ := g
  cases m <;> cases writing <;> simp_all [acquire, release, obstacle?]

/-- A request to write is refused exactly if some view is active. -/
theorem obstacle?_write_eq_none_iff (g : Guard) :
    g.obstacle? .write = none ↔ g.isBorrowed = false := by
  grind [obstacle?, isBorrowed]

/-- A request to read is refused exactly if a write view is active. -/
theorem obstacle?_read_eq_none_iff (g : Guard) : g.obstacle? .read = none ↔ g.writing = false := by
  grind [obstacle?]

end Guard

end CheckedMemo
