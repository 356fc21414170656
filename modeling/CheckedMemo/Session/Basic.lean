import CheckedMemo.Cache.Stable
import CheckedMemo.Cache.Value
import CheckedMemo.Program.Basic
import CheckedMemo.Settings
import CheckedMemo.Value.Snapshot

/-!
# Sessions

A session is the state that programs share: memory, stored code, the cells and caches with their
open views, per-thread caches, overrides and provider tables, the environment, the configuration of
logging, and the journal of what happened.

Every cell and every cache is a *resource* under a number of its own, which is never given out
again; names only refer to resources.  A per-thread cache makes a stable cache for a thread when the
thread first uses it.  The journal records each event with what becomes of events at that
time, so what is written to a log can be read off it.
-/

namespace CheckedMemo

/-- What has a guard: a cell with its content, or a cache. -/
inductive Resource where
  | cell (guard : Guard) (content : Value)
  | stable (cache : StableCache)
  | value (cache : ValueCache)

namespace Resource

/-- The guard of a resource. -/
def guard : Resource → Guard
  | .cell guard _ => guard
  | .stable cache => cache.guard
  | .value cache => cache.guard

/-- The resource with its guard changed. -/
def mapGuard (f : Guard → Guard) : Resource → Resource
  | .cell guard content => .cell (f guard) content
  | .stable cache => .stable { cache with guard := f cache.guard }
  | .value cache => .value { cache with guard := f cache.guard }

/-- What a view of a resource gives: the content of a cell, and nothing for a cache. -/
def content : Resource → Value
  | .cell _ content => content
  | _ => .null

@[simp] theorem guard_mapGuard (f : Guard → Guard) (r : Resource) :
    (r.mapGuard f).guard = f r.guard := by
  cases r <;> rfl

end Resource

/-- A cache of its own for every thread. -/
structure Confined where
  label : String
  /-- What to add to the message when a key was not populated. -/
  hint : Option String
  /-- The resource of each thread that has used the cache. -/
  caches : Table Thread Nat := ∅

/-- The label of the cache that belongs to a thread. -/
def Confined.labelOn (c : Confined) (thread : Thread) : Label := ⟨c.label, some thread⟩

/-- An override: the query in front of which it captures an artifact per key, the code that extracts
the artifact, and the per-thread cache for the artifacts. -/
structure Override where
  query : String
  extract : Nat
  artifacts : Nat

/-- Stored code: the body of a program, or the hook of an override in front of other code. -/
inductive Code where
  | body (run : Call → Program)
  | hook (override behind : Nat)

/-- What a name refers to. -/
inductive Handle where
  | resource (id : Nat)
  /-- A stable cache whose keys have to be populated before they are retrieved. -/
  | scoped (id : Nat) (hint : Option String)
  | confined (id : Nat)
  | override (id : Nat)
  | providers (id : Nat)
  deriving DecidableEq, Repr

/-- A view that was opened by name. -/
structure OpenView where
  resource : Nat
  mode : Mode
  deriving DecidableEq, Repr

/-- What the journal records: a value noted by a program, or a log event together with what becomes
of events at that time. -/
inductive Entry where
  | mark (seen : Snapshot)
  | event (event : Event) (sink : Sink)

/-- The state that programs share. -/
structure Session where
  /-- The current thread. -/
  thread : Thread := "main"
  memory : Memory := {}
  code : Array Code := #[]
  functions : Table String Nat := ∅
  resources : Array Resource := #[]
  /-- The per-thread caches; the first is the session's own. -/
  confined : Array Confined := #[{ label := "artifacts", hint := none }]
  overrides : Array Override := #[]
  /-- The provider tables: under each query, the code that answers it. -/
  providers : Array (Table String Nat) := #[]
  names : Table String Handle := ∅
  /-- The views that were opened by name and not closed. -/
  views : Table String OpenView := ∅
  environment : Environment := ∅
  sink : Sink := .unseen
  journal : Array Entry := #[]

namespace Session

/-! ### Memory -/

/-- Runs an operation on the memory of a session.  The memory is taken out of the session meanwhile,
so that no second reference to it keeps the operation from changing it in place. -/
def onMemory {α : Type} (s : Session) (f : Memory → α × Memory) : α × Session :=
  let m := s.memory
  let s := { s with memory := {} }
  let (a, m) := f m
  (a, { s with memory := m })

/-! ### The journal -/

/-- Logs an event. -/
def log (s : Session) (e : Event) : Session :=
  { s with journal := s.journal.push (.event e s.sink) }

/-- Logs the event that goes with a fault, if there is one. -/
def report (s : Session) (f : Fault) : Session :=
  match f.event? with
  | some e => s.log e
  | none => s

/-- Logs an event of a program, unless its fields do not suit their meaning. -/
def logChecked (s : Session) (e : Event) : Except Fault Value × Session :=
  match e.lines s.sink with
  | .ok _ => (.ok .null, s.log e)
  | .error f => (.error f, s)

/-- Notes a value as it is seen now, unless it cannot be written. -/
def mark (s : Session) (v : Value) : Except Fault Value × Session :=
  match s.memory.written v with
  | .ok seen => (.ok .null, { s with journal := s.journal.push (.mark seen) })
  | .error f => (.error f, s)

/-! ### Names and resources -/

/-- The request that is made with a key now. -/
def request (s : Session) (key : Value) : Request :=
  ⟨key, .mk fun _ => s.memory.text? key⟩

/-- The failure of a command on a target that is no resource of the right kind. -/
def unsuitable : Fault := .thrown { kind := .badType, message := "unsuitable target" }

/-- Adds a resource, and gives its number. -/
def addResource (s : Session) (r : Resource) : Nat × Session :=
  (s.resources.size, { s with resources := s.resources.push r })

/-- Replaces a resource. -/
def setResource (s : Session) (id : Nat) (r : Resource) : Session :=
  { s with resources := s.resources.setIfInBounds id r }

/-- Replaces a stable cache. -/
def setStable (s : Session) (id : Nat) (c : StableCache) : Session := s.setResource id (.stable c)

/-- Replaces a value cache. -/
def setValue (s : Session) (id : Nat) (c : ValueCache) : Session := s.setResource id (.value c)

/-- Releases a view of a resource. -/
def release (s : Session) (id : Nat) (mode : Mode) : Session :=
  match s.resources[id]? with
  | some r => s.setResource id (r.mapGuard (·.release mode))
  | none => s

/-- The part of a per-thread cache that belongs to the current thread, and the session in which it
was made if need be. -/
def locateConfined (s : Session) (id : Nat) : Except Fault (Place × Session) :=
  match s.confined[id]? with
  | none => .error unsuitable
  | some c =>
    match c.caches.get? s.thread with
    | some r => .ok (⟨r, c.hint⟩, s)
    | none =>
      let (r, s) := s.addResource (.stable { guard := { label := c.labelOn s.thread } })
      let c := { c with caches := c.caches.insert s.thread r }
      .ok (⟨r, c.hint⟩, { s with confined := s.confined.setIfInBounds id c })

/-- The artifacts of an override that belong to the current thread. -/
def locateArtifacts (s : Session) (override : Nat) : Except Fault (Place × Session) :=
  match s.overrides[override]? with
  | some o => s.locateConfined o.artifacts
  | none => .error unsuitable

/-- The place of a target, and the session in which the target was made if need be. -/
def locate (s : Session) : Target → Except Fault (Place × Session)
  | .named name =>
    match s.names.get? name with
    | some (.resource id) => .ok (⟨id, none⟩, s)
    | some (.scoped id hint) => .ok (⟨id, hint⟩, s)
    | some (.confined id) => s.locateConfined id
    | some (.override id) => s.locateArtifacts id
    | _ => .error (.unknown name)
  | .artifacts override => s.locateArtifacts override
  | .common => s.locateConfined 0

/-! ### Code and tables -/

/-- Stores code, and gives its number. -/
def addCode (s : Session) (c : Code) : Nat × Session :=
  (s.code.size, { s with code := s.code.push c })

/-- The provider table with a name, and its number. -/
def tableNamed (s : Session) (name : String) : Except Fault (Nat × Table String Nat) :=
  match s.names.get? name with
  | some (.providers id) =>
    match s.providers[id]? with
    | some t => .ok (id, t)
    | none => .error (.unknown name)
  | _ => .error (.unknown name)

/-- The override with a name, and its number. -/
def overrideNamed (s : Session) (name : String) : Except Fault (Nat × Override) :=
  match s.names.get? name with
  | some (.override id) =>
    match s.overrides[id]? with
    | some o => .ok (id, o)
    | none => .error (.unknown name)
  | _ => .error (.unknown name)

/-- The numbers of the override and of the provider table with given names. -/
def overrideAndTable (s : Session) (override providers : String) : Except Fault (Nat × Nat) := do
  let (o, _) ← s.overrideNamed override
  let (t, _) ← s.tableNamed providers
  return (o, t)

/-- Replaces a provider table. -/
def setTable (s : Session) (id : Nat) (t : Table String Nat) : Session :=
  { s with providers := s.providers.setIfInBounds id t }

/-- The provider of a query in a provider table. -/
def provider (t : Table String Nat) (query : String) : Except Fault Nat :=
  (t.get? query).elim (.error (.noProvider query)) .ok

/-- The code that a source refers to. -/
def codeAt (s : Session) : Source → Except Fault Nat
  | .provider providers query => do
    let (_, t) ← s.tableNamed providers
    provider t query
  | .entry table query =>
    match s.providers[table]? with
    | some t => provider t query
    | none => .error unsuitable
  | .function name => (s.functions.get? name).elim (.error (.unknown name)) .ok

end Session

end CheckedMemo
