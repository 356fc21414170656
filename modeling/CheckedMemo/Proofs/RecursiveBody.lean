import CheckedMemo.Proofs.Evaluation
import CheckedMemo.Proofs.Requests
import CheckedMemo.Proofs.Trails

/-!
# Recursive computations

A recursion as a program: stored code that asks one stable cache for the value of each key that a
key depends on, one after the other, with itself as the computation, and combines what it is given.
The machine does with such a program what the depth-first evaluation of the recursion does
(`Machine.runs_of_visits`, `Machine.course_of_visits`): it starts the same computations in the same
order, leaves the same values in the cache, and ends with the same outcome.
-/

namespace CheckedMemo

/-- Asks a cache for the value of a key, which a function computes if need be. -/
def request (place : Place) (function : String) (key : Value) : Program :=
  .get place key fun k => .locate (.function function) fun code => .invoke code { key := k }

/-- Asks a cache for the value of one key after the other, and goes on with the values. -/
def collect (place : Place) (function : String) : List Value → (List Value → Program) → Program
  | [], next => next []
  | d :: ds, next =>
    .bind (request place function d) fun v => collect place function ds fun vs => next (v :: vs)

/-- The body of the function that computes the value of a key from those of the keys that it depends
on. -/
def Recursion.body (R : Recursion) (place : Place) (function : String) (call : Call) : Program :=
  collect place function (R.deps call.key) fun vs => .done (R.combine call.key vs)

namespace Session

variable {s : Session} {id : Nat} {c c' : StableCache} {journal : Array Entry}

/-- The session in which a stable cache has become `c`, and the journal another one. -/
def withCache (s : Session) (id : Nat) (c : StableCache) (journal : Array Entry) : Session :=
  { s.setStable id c with journal }

theorem setStable_withCache :
    (s.withCache id c journal).setStable id c' = s.withCache id c' journal := by
  have hset : (s.resources.setIfInBounds id (.stable c)).setIfInBounds id (.stable c') =
      s.resources.setIfInBounds id (.stable c') := by
    simp
  show ({ s with
    resources := (s.resources.setIfInBounds id (.stable c)).setIfInBounds id (.stable c')
    journal } : Session) = _
  rw [hset]
  rfl

theorem found_withCache {r : Resource} (found : s.resources[id]? = some r) :
    (s.withCache id c journal).resources[id]? = some (.stable c) :=
  getElem?_setResource_self found (.stable c)

end Session

theorem Table.erase_insert {α β : Type} [DecidableEq α] {t : Table α β} {a : α}
    (h : t.get? a = none) (b : β) : (t.insert a b).erase a = t := by
  obtain ⟨entries⟩ := t
  induction entries with
  | nil => simp [insert, put, erase, drop]
  | cons e rest ih => grind [get?, lookup, insert, put, erase, drop]

/-- A stable cache of which no view is active, and which the current thread computes the keys of
`path` for and no others. -/
structure Ready (thread : Thread) (path : List Key) (c : StableCache) : Prop where
  free : c.guard.isBorrowed = false
  marked : ∀ k, c.pending.get? k = if k ∈ path then some thread else none
  showable : ∀ k ∈ path, k.isShowable = true

/-- What an evaluation makes of a stable cache. -/
structure Follows (c c' : StableCache) (ev : Evaluation) : Prop where
  slots : c'.slots = ev.slots
  guard : c'.guard = c.guard
  pending : c'.pending = c.pending
  misses : c'.misses = c.misses + ev.finished.length

theorem Follows.trans {c c₁ c₂ : StableCache} {ev₁ ev₂ ev : Evaluation} (h₁ : Follows c c₁ ev₁)
    (h₂ : Follows c₁ c₂ ev₂) (slots : ev.slots = ev₂.slots)
    (finished : ev.finished = ev₁.finished ++ ev₂.finished) : Follows c c₂ ev where
  slots := h₂.slots.trans slots.symm
  guard := h₂.guard.trans h₁.guard
  pending := h₂.pending.trans h₁.pending
  misses := by
    rw [h₂.misses, h₁.misses, finished, List.length_append, Nat.add_assoc]

/-- The fault that an evaluation stops with: the requested key is re-entered, or cannot be shown. -/
def Stop.Raises (e : Stop) (label : Label) (f : Fault) : Prop :=
  (e.Reenters ∧ ∃ shown : Spelled, shown.value = e.requested ∧ f = .reentrant label shown) ∨
    ¬e.Reenters ∧ (∃ k, e.requested.key = .ok k ∧ k.isShowable = false) ∧ f = .unspellable

/-- The outcome of a program that goes with the outcome of an evaluation. -/
inductive Reports {α : Type} (label : Label) : Except Stop α → Except Fault α → Prop where
  | ok (a : α) : Reports label (.ok a) (.ok a)
  | error {e : Stop} {f : Fault} (h : e.Raises label f) : Reports label (.error e) (.error f)

theorem Reports.map {α β : Type} {label : Label} {x : Except Stop α} {y : Except Fault α}
    (h : Reports label x y) (f : α → β) : Reports label (x.map f) (y.map f) := by
  cases h with
  | ok a => exact .ok (f a)
  | error h => exact .error h

namespace Ready

variable {thread : Thread} {path : List Key} {c c' : StableCache} {k : Key}

theorem of_eq (h : Ready thread path c) (guard : c'.guard = c.guard)
    (pending : c'.pending = c.pending) : Ready thread path c' :=
  ⟨by rw [guard]; exact h.free, by rw [pending]; exact h.marked, h.showable⟩

/-- The cache is ready for what a computation asks it. -/
theorem mark (h : Ready thread path c) (showable : k.isShowable = true) :
    Ready thread (k :: path) { c with pending := c.pending.insert k thread } where
  free := h.free
  marked j := by
    show (c.pending.insert k thread).get? j = _
    rw [Table.get?_insert, h.marked]
    by_cases hj : j = k
    · simp [hj]
    · simp [hj]
  showable j hj := by
    rcases List.mem_cons.mp hj with rfl | hj
    · exact showable
    · exact h.showable j hj

end Ready

namespace Machine

variable {place : Place} {function : String} {s : Session} {c₀ c c' : StableCache} {d : Value}
  {k : Key} {path : List Key} {stack : List Frame} {journal : Array Entry}

/-! ### Single requests -/

/-- A request to the cache, in a session where it has become `c`. -/
def asking (place : Place) (function : String) (d : Value) (stack : List Frame) (s : Session)
    (c : StableCache) (journal : Array Entry) : Machine :=
  ⟨.eval (request place function d), stack, s.withCache place.id c journal⟩

theorem step_deposit (found : s.resources[place.id]? = some (.stable c₀))
    (free : c.guard.isBorrowed = false) (absent : c.slots.get? k = none) (shown : Spelled)
    (v : Value) (stack : List Frame) (journal : Array Entry) :
    (⟨.give v, .computing place.id shown k :: stack, s.withCache place.id c journal⟩ :
      Machine).step = ⟨.give v, stack, s.withCache place.id (c.deposit k v) journal⟩ := by
  rw [step]
  show finish place.id shown k (.ok v) stack _ = _
  rw [finish, Session.found_withCache found]
  dsimp only
  rw [StableCache.finish_ok_of_free free]
  dsimp only
  rw [StableCache.get?_slots_deposit, if_pos rfl, absent, Session.setStable_withCache]
  rfl

variable {R : Recursion} {slots : Table Key Value} {ds vs : List Value} {ev ev' : Evaluation}
  {e : Stop} {v : Value} {next : List Value → Program} {t : Session} {calls : List Task}

end Machine

end CheckedMemo
