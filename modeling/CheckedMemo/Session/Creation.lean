import CheckedMemo.Session.Basic

/-!
# Making objects

Every object has a label, for which there is a default, and is bound to a name.  A name that was in
use before refers to the new object from then on; views, computations and hooks that concern the old
one are not affected.
-/

namespace CheckedMemo.Session

/-- Binds a name. -/
def bindName (s : Session) (name : String) (h : Handle) : Session :=
  { s with names := s.names.insert name h }

/-- Adds a resource and binds it to a name. -/
def createResource (s : Session) (name : String) (r : Resource) : Session :=
  let (id, s) := s.addResource r
  s.bindName name (.resource id)

/-- Adds a per-thread cache, and gives its number. -/
def addConfined (s : Session) (c : Confined) : Nat × Session :=
  (s.confined.size, { s with confined := s.confined.push c })

/-- A hint that is worth showing. -/
def shownHint (hint : Option String) : Option String := hint.filter (· ≠ "")

/-- The per-thread cache for the artifacts of an override of a query. -/
def artifactsOf (query : String) : Confined where
  label := s!"override:{query}"
  hint := some <|
    s!"Are you sure QueryOverride({Text.quoted query}).install() was called on the providers?"

/-- Makes an object. -/
def create (s : Session) : Creation → Session
  | .cell name content label =>
    s.createResource name (.cell { label := label.getD "cell" } content)
  | .stable name label =>
    s.createResource name (.stable { guard := { label := label.getD "stable_cache" } })
  | .value name label =>
    s.createResource name (.value { guard := { label := label.getD "value_cache" } })
  | .scoped name label hint =>
    let (id, s) := s.addResource (.stable { guard := { label := label.getD "scoped_cache" } })
    s.bindName name (.scoped id (shownHint hint))
  | .confined name label hint =>
    let label := label.getD "thread_confined_cache"
    let (id, s) := s.addConfined { label, hint := shownHint hint }
    s.bindName name (.confined id)
  | .override name query extract =>
    let (artifacts, s) := s.addConfined (artifactsOf query)
    let id := s.overrides.size
    { s with overrides := s.overrides.push ⟨query, extract, artifacts⟩ }.bindName name
      (.override id)
  | .providers name =>
    let id := s.providers.size
    { s with providers := s.providers.push ∅ }.bindName name (.providers id)

end CheckedMemo.Session
