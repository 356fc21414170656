import CheckedMemo.Session.Basic

/-!
# Tables of callable code

Functions of the session and provider tables map names to stored code.  Installing an override puts
its hook in front of the provider of its query.  Only the outermost code of an entry is looked at:
an override is not installed over its own hook, but it may be over that of another.
-/

namespace CheckedMemo.Session

/-- Whether stored code is a hook of an override. -/
def isHookOf (s : Session) (override code : Nat) : Bool :=
  match s.code[code]? with
  | some (.hook owner _) => owner = override
  | _ => false

/-- The table in which a hook of an override stands in front of the provider of its query, and the
session in which the hook is stored. -/
def hooked (s : Session) (id : Nat) (o : Override) (t : Table String Nat) :
    Except Fault (Table String Nat × Session) :=
  match t.get? o.query with
  | none => .error (.unknownQuery o.query)
  | some current =>
    if s.isHookOf id current then .error (.alreadyOverridden o.query)
    else
      let (hook, s) := s.addCode (.hook id current)
      .ok (t.insert o.query hook, s)

/-- Installs an override on a provider table. -/
def install (s : Session) (override providers : String) : Except Fault Session := do
  let (id, o) ← s.overrideNamed override
  let (p, t) ← s.tableNamed providers
  let (t, s) ← s.hooked id o t
  return (s.setTable p t).log (.overrideInstalled o.query)

/-- Copies an entry of a provider table. -/
def aliasEntry (s : Session) (providers query otherProviders otherQuery : String) :
    Except Fault Session := do
  let code ← s.codeAt (.provider providers query)
  let (p, t) ← s.tableNamed otherProviders
  return s.setTable p (t.insert otherQuery code)

/-- Removes an entry of a provider table. -/
def withdraw (s : Session) (providers query : String) : Except Fault Session := do
  let (p, t) ← s.tableNamed providers
  if t.contains query then return s.setTable p (t.erase query) else .error (.noProvider query)

/-- The queries of a provider table in ascending order, as a new list. -/
def queries (s : Session) (providers : String) : Except Fault (Value × Session) := do
  let (_, t) ← s.tableNamed providers
  let names := t.keys.mergeSort fun a b => a ≤ b
  let (v, m) := s.memory.newList (names.map .text)
  return (v, { s with memory := m })

/-- The reply to a change: nothing to report if it succeeds, and the old session if it fails. -/
def changed (s : Session) : Except Fault Session → Except Fault Value × Session
  | .ok s => (.ok .null, s)
  | .error f => (.error f, s)

/-- Performs a command on a table. -/
def table (s : Session) : TableCommand → Except Fault Value × Session
  | .define function code =>
    (.ok .null, { s with functions := s.functions.insert function code })
  | .provide providers query code =>
    s.changed ((s.tableNamed providers).map fun (p, t) => s.setTable p (t.insert query code))
  | .alias providers query otherProviders otherQuery =>
    s.changed (s.aliasEntry providers query otherProviders otherQuery)
  | .withdraw providers query => s.changed (s.withdraw providers query)
  | .queries providers =>
    match s.queries providers with
    | .ok (v, s) => (.ok v, s)
    | .error f => (.error f, s)
  | .install override providers => s.changed (s.install override providers)

end CheckedMemo.Session
