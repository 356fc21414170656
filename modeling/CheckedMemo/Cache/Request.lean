import CheckedMemo.Fault
import CheckedMemo.Table

/-!
# Requests to caches

What every cache does with a request before it looks at its contents: see whether the view that the
request needs is admitted, and find the key to look under.
-/

namespace CheckedMemo

/-- The key of a request: the value itself and its text at that time, if it has one.  The text is
worked out only if it is shown. -/
structure Request where
  key : Value
  text? : Thunk (Option String)

namespace Request

/-- The key as it is shown. -/
def spelled (r : Request) : Except Fault Spelled :=
  match r.text?.get with
  | some text => .ok ⟨r.key, text⟩
  | none => .error .unspellable

/-- The fault that shows the key of the request, or the fault that the key cannot be shown. -/
def fault (r : Request) (cause : Spelled → Fault) : Fault :=
  match r.spelled with
  | .ok key => cause key
  | .error f => f

/-- The key to look under. -/
def index (r : Request) : Except Fault Key :=
  match r.key.key with
  | .ok k => .ok k
  | .error u => .error (.unhashable u)

end Request

/-- The request that was made with a key. -/
def Spelled.request (key : Spelled) : Request := ⟨key.value, .pure (some key.text)⟩

/-- Refuses a view while other views are in its way. -/
def Guard.allow (g : Guard) (mode : Mode) (r : Request) : Except Fault Unit :=
  match g.obstacle? mode with
  | none => .ok ()
  | some active => .error (r.fault (.conflict g.label mode active))

/-- How a cache answers a request that it does not refuse: with a stored value, or by letting the
requester compute the value of the key, which is shown as `key` and looked up under `index`. -/
inductive Lookup (Cache : Type) where
  | hit (value : Value) (cache : Cache)
  | miss (key : Spelled) (index : Key) (cache : Cache)

/-! ### Laws -/

/-- A key that was shown can be shown again. -/
@[simp] theorem Spelled.spelled_request (key : Spelled) : key.request.spelled = .ok key := rfl

/-- The fault of a request whose key was shown shows that key. -/
@[simp] theorem Spelled.fault_request (key : Spelled) (cause : Spelled → Fault) :
    key.request.fault cause = cause key := rfl

/-- A view is admitted exactly if nothing is in its way. -/
theorem Guard.allow_eq_ok_iff (g : Guard) (mode : Mode) (r : Request) :
    g.allow mode r = .ok () ↔ g.obstacle? mode = none := by
  unfold Guard.allow
  cases g.obstacle? mode <;> simp

end CheckedMemo
