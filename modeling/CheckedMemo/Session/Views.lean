import CheckedMemo.Session.Basic

/-!
# Views

A view of a resource is opened if its guard admits it.  Views that are opened by name stay open
until they are closed by that name, in any order and on any thread.  A name under which a view is
open stands for that view and no other.
-/

namespace CheckedMemo.Session

/-- A view that was opened: the content of the resource, and the session with the view active. -/
structure Opened where
  content : Value
  session : Session

/-- Opens a view of a resource. -/
def openView (s : Session) (id : Nat) (mode : Mode) (key : Value) : Except Fault Opened :=
  match s.resources[id]? with
  | none => .error unsuitable
  | some r => do
    r.guard.allow mode (s.request key)
    return ⟨r.content, s.setResource id (r.mapGuard (·.acquire mode))⟩

/-- Releases the view that is open under a name, if there is one. -/
def dropNamed (s : Session) (name : String) : Session :=
  match s.views.get? name with
  | none => s
  | some v => { s.release v.resource v.mode with views := s.views.erase name }

/-- Opens a view under a name.  A view that was opened under the name while the key was evaluated is
released: a name stands for one view. -/
def openNamed (s : Session) (name : String) (id : Nat) (mode : Mode) (key : Value) :
    Except Fault Value × Session :=
  match s.openView id mode key with
  | .error f => (.error f, s)
  | .ok o =>
    let s := o.session.dropNamed name
    (.ok o.content, { s with views := s.views.insert name ⟨id, mode⟩ })

/-- Closes the view that is open under a name.  The failure that ended it, if any, follows. -/
def closeNamed (s : Session) (name : String) (failure : Option Thrown) :
    Except Fault Value × Session :=
  if s.views.contains name then
    match failure with
    | none => (.ok (.bool true), s.dropNamed name)
    | some t => (.error (.thrown t), s.dropNamed name)
  else (.ok (.bool false), s)

/-- Performs a command on named views. -/
def view (s : Session) : ViewCommand → Except Fault Value × Session
  | .isOpen name => (.ok (.bool (s.views.contains name)), s)
  | .openAs name place mode key => s.openNamed name place.id mode key
  | .close name failure => s.closeNamed name failure

end CheckedMemo.Session
