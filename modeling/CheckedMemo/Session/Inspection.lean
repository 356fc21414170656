import CheckedMemo.Session.Basic

/-!
# Looking at cells and caches

Inspections of the resource at a place.  They change no resource: a membership test, a size and a
retrieval need a read view, but only for a moment in which nothing else runs.
-/

namespace CheckedMemo

namespace Resource

/-- Whether a key has a stored value. -/
def contains (r : Request) : Resource → Except Fault Bool
  | .stable c => c.contains r
  | .value c => c.contains r
  | .cell .. => .error Session.unsuitable

/-- The number of stored values; `unkeyed` is the request, made without a key. -/
def size (unkeyed : Request) : Resource → Except Fault Nat
  | .stable c => c.size unkeyed
  | .value c => c.size unkeyed
  | .cell .. => .error Session.unsuitable

/-- The number of hits and the number of misses. -/
def stats : Resource → Except Fault (Nat × Nat)
  | .stable c => .ok (c.hits, c.misses)
  | .value c => .ok (c.hits, c.misses)
  | .cell .. => .error Session.unsuitable

/-- The stored value of a key that has to be populated. -/
def retrieve (hint : Option String) (r : Request) : Resource → Except Fault Value
  | .stable c => c.retrieve hint r
  | _ => .error Session.unsuitable

end Resource

namespace Session

/-- The resource with a number. -/
def resource (s : Session) (id : Nat) : Except Fault Resource :=
  match s.resources[id]? with
  | some r => .ok r
  | none => .error unsuitable

/-- The hits and misses of a cache, as a new list. -/
def stats (s : Session) (id : Nat) : Except Fault Value × Session :=
  match s.resource id >>= Resource.stats with
  | .error f => (.error f, s)
  | .ok (hits, misses) =>
    let (v, m) := s.memory.newList [.int hits, .int misses]
    (.ok v, { s with memory := m })

/-- Performs an inspection. -/
def inspect (s : Session) : Inspection → Except Fault Value × Session
  | .contains p key => (do return .bool (← (← s.resource p.id).contains (s.request key)), s)
  | .size p => (do return .int (← (← s.resource p.id).size (s.request .null)), s)
  | .stats p => s.stats p.id
  | .label p => (do return .text (← s.resource p.id).guard.label.text, s)
  | .readers p => (do return .int (← s.resource p.id).guard.readers, s)
  | .isBorrowed p => (do return .bool (← s.resource p.id).guard.isBorrowed, s)
  | .retrieve p key => (do (← s.resource p.id).retrieve p.hint (s.request key), s)

end Session

end CheckedMemo
