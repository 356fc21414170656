import CheckedMemo.Proofs.Effects
import CheckedMemo.Proofs.Run

/-!
# What a step can do to cells and caches

Most of what a program does concerns neither cells nor caches.  `Shared` is the part of a session
that they live in, and `Change` lists every way in which a move can alter it and the frames that
belong to it, together with what has to hold for the move to be made.  `step_change` says that the
list is complete, so whatever is true of every machine of a session is proved by cases on it.
-/

namespace CheckedMemo

/-! ### The shared part of a session -/

/-- The current thread, the cells and caches, and the views that are open under a name. -/
structure Shared where
  thread : Thread
  resources : Array Resource
  views : Table String OpenView

namespace Shared

/-- Replaces a cell or cache. -/
def set (c : Shared) (id : Nat) (r : Resource) : Shared :=
  { c with resources := c.resources.setIfInBounds id r }

/-- Adds a cell or cache. -/
def push (c : Shared) (r : Resource) : Shared := { c with resources := c.resources.push r }

/-- Notes that a view is open under a name. -/
def bindView (c : Shared) (name : String) (v : OpenView) : Shared :=
  { c with views := c.views.insert name v }

theorem getElem?_resources_set {c : Shared} {id : Nat} {r₀ : Resource}
    (found : c.resources[id]? = some r₀) (r : Resource) (i : Nat) :
    (c.set id r).resources[i]? = if i = id then some r else c.resources[i]? := by
  obtain ⟨hid, -⟩ := Array.getElem?_eq_some_iff.mp found
  rw [set, Array.getElem?_setIfInBounds]
  by_cases hi : i = id
  · rw [if_pos hi, if_pos hi.symm, if_pos hid]
  · rw [if_neg hi, if_neg (Ne.symm hi)]

theorem getElem?_resources_set_self {c : Shared} {id : Nat} {r₀ : Resource}
    (found : c.resources[id]? = some r₀) (r : Resource) : (c.set id r).resources[id]? = some r := by
  rw [getElem?_resources_set found, if_pos rfl]

theorem set_of_found {c : Shared} {id : Nat} {r : Resource} (found : c.resources[id]? = some r) :
    c.set id r = c := by
  have hresources : (c.set id r).resources = c.resources := by
    apply Array.ext_getElem?
    intro i
    rw [getElem?_resources_set found]
    split
    · rename_i hi
      rw [hi, found]
    · rfl
  obtain ⟨thread, resources, views⟩ := c
  exact congrArg (Shared.mk thread · views) hresources

theorem getElem?_resources_push (c : Shared) (r : Resource) (i : Nat) :
    (c.push r).resources[i]? = if i = c.resources.size then some r else c.resources[i]? :=
  Array.getElem?_push

end Shared

namespace Session

/-- The part of a session that cells and caches live in. -/
def shared (s : Session) : Shared := ⟨s.thread, s.resources, s.views⟩

theorem shared_onMemory {α : Type} (s : Session) (f : Memory → α × Memory) :
    (s.onMemory f).2.shared = s.shared := rfl

@[simp] theorem shared_log (s : Session) (e : Event) : (s.log e).shared = s.shared := rfl

@[simp] theorem shared_report (s : Session) (f : Fault) : (s.report f).shared = s.shared := by
  obtain ⟨_, h⟩ := s.report_eq f
  rw [h]
  rfl

@[simp] theorem shared_foldl_report (s : Session) (fs : List Fault) :
    (fs.foldl report s).shared = s.shared := by
  obtain ⟨_, h⟩ := s.foldl_report_eq fs
  rw [h]
  rfl

@[simp] theorem shared_setResource (s : Session) (id : Nat) (r : Resource) :
    (s.setResource id r).shared = s.shared.set id r := rfl

/-- What takes the place of a resource is found there. -/
theorem getElem?_setResource_self {s : Session} {id : Nat} {r₀ : Resource}
    (found : s.resources[id]? = some r₀) (r : Resource) :
    (s.setResource id r).resources[id]? = some r :=
  Shared.getElem?_resources_set_self (c := s.shared) found r

@[simp] theorem shared_setStable (s : Session) (id : Nat) (c : StableCache) :
    (s.setStable id c).shared = s.shared.set id (.stable c) := rfl

@[simp] theorem shared_setValue (s : Session) (id : Nat) (c : ValueCache) :
    (s.setValue id c).shared = s.shared.set id (.value c) := rfl

end Session

/-- The cells and caches as they are made. -/
inductive Resource.New : Resource → Prop where
  | cell (label : Label) (content : Value) : New (.cell { label } content)
  | stable (label : Label) : New (.stable { guard := { label } })
  | value (label : Label) : New (.value { guard := { label } })

/-- Whether a frame has nothing to do with threads, views or caches. -/
def Frame.isIdle : Frame → Bool
  | .bind _ | .attempt .. | .timer _ => true
  | _ => false

namespace Machine

/-- At `m` a cache is asked for a key, and at `m'` the computation that came with the request is
called. -/
def Calls (m m' : Machine) (id : Nat) (k : Key) : Prop :=
  ∃ place key compute, m.control = .eval (.get place key compute) ∧ place.id = id ∧
    key.key = .ok k ∧ m'.control = .eval (compute key)

/-- How a move changes the shared part of a session and the stack. -/
inductive Change (m m' : Machine) : Prop where
  /-- Nothing changes but for an idle frame. -/
  | idle (shared : m'.session.shared = m.session.shared)
    (stack : m'.stack = m.stack ∨
      ∃ f : Frame, f.isIdle = true ∧ (m'.stack = f :: m.stack ∨ m.stack = f :: m'.stack))
  /-- A cell or cache is made. -/
  | make (r : Resource) (new : r.New) (shared : m'.session.shared = m.session.shared.push r)
    (stack : m'.stack = m.stack)
  /-- The program goes to a thread. -/
  | depart (thread : Thread) (shared : m'.session.shared = { m.session.shared with thread })
    (stack : m'.stack = .thread m.session.thread :: m.stack)
  /-- The program goes back to a thread. -/
  | comeBack (back : Thread) (shared : m'.session.shared = { m.session.shared with thread := back })
    (stack : m.stack = .thread back :: m'.stack)
  /-- A view is entered. -/
  | enter (id : Nat) (mode : Mode) (r : Resource) (found : m.session.resources[id]? = some r)
    (free : r.guard.obstacle? mode = none)
    (shared : m'.session.shared = m.session.shared.set id (r.mapGuard (·.acquire mode)))
    (stack : m'.stack = .release id mode :: m.stack)
  /-- A view is left. -/
  | leave (id : Nat) (mode : Mode)
    (shared : m'.session.shared = (m.session.release id mode).shared)
    (stack : m.stack = .release id mode :: m'.stack)
  /-- A view is opened under a name. -/
  | openNamed (name : String) (id : Nat) (mode : Mode) (r : Resource)
    (found : m.session.resources[id]? = some r) (free : r.guard.obstacle? mode = none)
    (shared : m'.session.shared =
      ((m.session.setResource id (r.mapGuard (·.acquire mode))).dropNamed name).shared.bindView name
        ⟨id, mode⟩)
    (stack : m'.stack = m.stack)
  /-- The view that is open under a name is closed. -/
  | closeNamed (name : String) (shared : m'.session.shared = (m.session.dropNamed name).shared)
    (stack : m'.stack = m.stack)
  /-- A stable cache gives out a value that it has stored. -/
  | hitStable (id : Nat) (c : StableCache) (k : Key) (v : Value)
    (found : m.session.resources[id]? = some (.stable c)) (stored : c.slots.get? k = some v)
    (shared : m'.session.shared = m.session.shared.set id (.stable { c with hits := c.hits + 1 }))
    (stack : m'.stack = m.stack)
    (asks : ∃ place key compute, m.control = .eval (.get place key compute) ∧ place.id = id)
  /-- A stable cache starts a computation. -/
  | missStable (id : Nat) (c : StableCache) (key : Spelled) (k : Key)
    (found : m.session.resources[id]? = some (.stable c))
    (free : c.guard.isBorrowed = false) (absent : c.slots.get? k = none)
    (unmarked : c.pending.get? k = none) (indexed : key.value.key = .ok k)
    (showable : k.isShowable = true) (calls : Calls m m' id k)
    (shared : m'.session.shared = m.session.shared.set id
      (.stable { c with pending := c.pending.insert k m.session.thread }))
    (stack : m'.stack = .computing id key k :: m.stack)
  /-- A computation of a stable cache ends. -/
  | finish (id : Nat) (key : Spelled) (k : Key) (c : StableCache) (outcome : Except Fault Value)
    (control : m.control = .ofOutcome outcome)
    (found : m.session.resources[id]? = some (.stable c))
    (shared : m'.session.shared =
      m.session.shared.set id (.stable (c.finish key k outcome).cache))
    (stack : m.stack = .computing id key k :: m'.stack)
  /-- A value cache is about to copy a value that it has stored. -/
  | hitValue (id : Nat) (c : ValueCache) (k : Key) (v : Value)
    (found : m.session.resources[id]? = some (.value c))
    (free : c.guard.isBorrowed = false) (stored : c.slots.get? k = some v)
    (shared : m'.session.shared =
      m.session.shared.set id (.value { c.acquire .write with hits := c.hits + 1 }))
    (stack : m'.stack = .release id .write :: m.stack)
    (asks : ∃ place key compute, m.control = .eval (.get place key compute) ∧ place.id = id)
  /-- A value cache starts a computation. -/
  | missValue (id : Nat) (c : ValueCache) (k : Key)
    (found : m.session.resources[id]? = some (.value c))
    (free : c.guard.isBorrowed = false) (absent : c.slots.get? k = none) (calls : Calls m m' id k)
    (shared : m'.session.shared = m.session.shared.set id (.value (c.acquire .write)))
    (stack : m'.stack = .storing id k :: .release id .write :: m.stack)
  /-- A value cache stores what was computed. -/
  | deposit (id : Nat) (c : ValueCache) (k : Key) (v : Value) (control : m.control = .give v)
    (found : m.session.resources[id]? = some (.value c))
    (shared : m'.session.shared = m.session.shared.set id (.value (c.deposit k v)))
    (stack : m.stack = .storing id k :: m'.stack)
  /-- A computation of a value cache fails. -/
  | abandon (id : Nat) (k : Key) (f : Fault) (control : m.control = .raise f)
    (shared : m'.session.shared = m.session.shared) (stack : m.stack = .storing id k :: m'.stack)
  /-- A computation ends for which there is no cache. -/
  | stray (frame : Frame) (shared : m'.session.shared = m.session.shared)
    (stack : m.stack = frame :: m'.stack)
    (lost : match frame with
      | .computing id _ _ => ∀ c, m.session.resources[id]? ≠ some (.stable c)
      | .storing id _ => ∀ c, m.session.resources[id]? ≠ some (.value c)
      | _ => False)

end Machine

/-! ### Commands -/

namespace Session

theorem shared_inspect (s : Session) (i : Inspection) : (s.inspect i).2.shared = s.shared := by
  rcases s.inspect_cases i with h | ⟨_, h⟩
  · rw [h]
  · rw [h]
    rfl

theorem shared_table (s : Session) (c : TableCommand) : (s.table c).2.shared = s.shared := by
  rcases s.table_cases c with ⟨_, _, h⟩ | ⟨_, h⟩ | ⟨_, _, _, _, _, -, h⟩ <;>
    (rw [h]; rfl)

theorem shared_settings (s : Session) (c : SettingsCommand) :
    (s.settings c).2.shared = s.shared := by
  rcases s.settings_cases c with ⟨_, _, h⟩ | ⟨u, h⟩ | ⟨_, -, h⟩
  · rw [h]
    rfl
  · obtain ⟨_, hu⟩ := s.settingsValue_eq u
    rw [h, hu]
    rfl
  · rw [h]
    rfl

theorem shared_mark (s : Session) (v : Value) : (s.mark v).2.shared = s.shared := by
  obtain ⟨_, h⟩ := s.mark_eq v
  rw [h]
  rfl

/-- Whatever is created, at most one cell or cache is made. -/
theorem shared_create (s : Session) (c : Creation) :
    (s.create c).shared = s.shared ∨
      ∃ r : Resource, r.New ∧ (s.create c).shared = s.shared.push r := by
  cases c with
  | cell name content label => exact .inr ⟨_, .cell (label.getD "cell") content, rfl⟩
  | stable name label => exact .inr ⟨_, .stable (label.getD "stable_cache" : String), rfl⟩
  | value name label => exact .inr ⟨_, .value (label.getD "value_cache" : String), rfl⟩
  | «scoped» name label hint => exact .inr ⟨_, .stable (label.getD "scoped_cache" : String), rfl⟩
  | confined | override | providers => exact .inl rfl

/-- A target is found where it is, or a cache is made for it. -/
theorem shared_locate {s t : Session} {target : Target} {place : Place}
    (h : s.locate target = .ok (place, t)) :
    t.shared = s.shared ∨ ∃ r : Resource, r.New ∧ t.shared = s.shared.push r := by
  rcases locate_eq_ok h with ⟨rfl, -⟩ | ⟨id, hid⟩
  · exact .inl rfl
  · obtain ⟨c, -, -, ⟨-, rfl⟩ | ⟨-, -, rfl⟩⟩ := locateConfined_eq_ok hid
    · exact .inl rfl
    · exact .inr ⟨_, .stable _, rfl⟩

end Session

namespace Machine

variable {m m' : Machine}

theorem shared_reply (stack : List Frame) (r : Except Fault Value × Session) :
    (reply stack r).session.shared = r.2.shared := by
  obtain ⟨_, h⟩ := session_reply_eq stack r
  rw [h]
  rfl

theorem change_of_same (shared : m'.session.shared = m.session.shared)
    (stack : m'.stack = m.stack) : Change m m' := .idle shared (.inl stack)

theorem change_of_view (c : ViewCommand)
    (shared : m'.session.shared = (m.session.view c).2.shared) (stack : m'.stack = m.stack) :
    Change m m' := by
  cases c with
  | isOpen name => exact change_of_same shared stack
  | openAs name place mode key =>
    rw [Session.view, Session.openNamed] at shared
    split at shared
    · exact change_of_same shared stack
    · rename_i o ho
      obtain ⟨r, hr, hfree, rfl⟩ := Session.openView_eq_ok ho
      exact .openNamed name place.id mode r hr hfree shared stack
  | close name failure =>
    simp only [Session.view, Session.closeNamed] at shared
    split at shared
    · cases failure <;> exact .closeNamed name shared stack
    · exact change_of_same shared stack

theorem change_of_perform (c : Command)
    (shared : m'.session.shared = (m.session.perform c).2.shared) (stack : m'.stack = m.stack) :
    Change m m' := by
  cases c with
  | create c =>
    rcases m.session.shared_create c with h | ⟨r, hr, h⟩
    · exact change_of_same (shared.trans h) stack
    · exact .make r hr (shared.trans h) stack
  | view c => exact change_of_view c shared stack
  | memory c =>
    rw [Session.perform, Session.shared_onMemory] at shared
    exact change_of_same shared stack
  | inspect i =>
    rw [Session.perform, Session.shared_inspect] at shared
    exact change_of_same shared stack
  | table c =>
    rw [Session.perform, Session.shared_table] at shared
    exact change_of_same shared stack
  | settings c =>
    rw [Session.perform, Session.shared_settings] at shared
    exact change_of_same shared stack
  | mark v =>
    rw [Session.perform, Session.shared_mark] at shared
    exact change_of_same shared stack
  | spell v =>
    rw [Session.perform] at shared
    exact change_of_same shared stack

/-! ### Programs -/

variable (control : Control) (stack : List Frame) (s : Session)

theorem change_refuse (f : Fault) : Change ⟨control, stack, s⟩ (refuse f stack s) :=
  change_of_same (Session.shared_report ..) rfl

theorem change_copy (v : Value) : Change ⟨control, stack, s⟩ (copy v stack s) := by
  refine change_of_same ?_ (stack_copy ..)
  rcases session_copy_cases stack s v with h | ⟨_, h⟩
  · rw [h]
  · rw [h]
    rfl

theorem change_getStable {place : Place} {c : StableCache}
    (found : s.resources[place.id]? = some (.stable c)) (key : Value) (compute : Value → Program) :
    Change ⟨.eval (.get place key compute), stack, s⟩
      (getStable place.id c key compute stack s) := by
  unfold getStable
  split
  · exact change_refuse ..
  · rename_i hstart
    obtain ⟨-, ⟨k, -, hv⟩, rfl⟩ := StableCache.start_eq_hit_iff.mp hstart
    exact .hitStable place.id c k _ found hv rfl rfl ⟨place, key, compute, rfl, rfl⟩
  · rename_i spelled k c' hstart
    obtain ⟨hfree, hindex, hnone, hpending, hspelled, rfl⟩ :=
      StableCache.start_eq_miss_iff.mp hstart
    have hkey : key.key = .ok k := Request.index_eq_ok_iff.mp hindex
    -- the key was spelled out for the frame, so it can be shown however it is spelled
    have hshowable : k.isShowable = true := (s.spelled_isOk_iff hkey).mp ⟨spelled, hspelled⟩
    have hvalue : spelled.value = key := Request.value_of_spelled hspelled
    exact .missStable place.id c spelled k found hfree hnone hpending (by rw [hvalue, hkey])
      hshowable ⟨place, key, compute, rfl, rfl, hkey, rfl⟩ rfl rfl

theorem change_getValue {place : Place} {c : ValueCache}
    (found : s.resources[place.id]? = some (.value c)) (key : Value) (compute : Value → Program) :
    Change ⟨.eval (.get place key compute), stack, s⟩
      (getValue place.id c key compute stack s) := by
  unfold getValue
  split
  · exact change_refuse ..
  · rename_i hstart
    obtain ⟨hfree, ⟨k, -, hv⟩, rfl⟩ := ValueCache.start_eq_hit_iff.mp hstart
    exact .hitValue place.id c k _ found hfree hv rfl rfl ⟨place, key, compute, rfl, rfl⟩
  · rename_i spelled k c' hstart
    obtain ⟨hfree, hindex, hnone, -, rfl⟩ := ValueCache.start_eq_miss_iff.mp hstart
    have hkey : key.key = .ok k := Request.index_eq_ok_iff.mp hindex
    exact .missValue place.id c k found hfree hnone ⟨place, key, compute, rfl, rfl, hkey, rfl⟩ rfl
      rfl

theorem change_get (place : Place) (key : Value) (compute : Value → Program) :
    Change ⟨.eval (.get place key compute), stack, s⟩ (get place.id key compute stack s) := by
  unfold get
  split
  · rename_i found
    exact change_getStable stack s found key compute
  · rename_i found
    exact change_getValue stack s found key compute
  · exact change_refuse ..

theorem change_peek (id : Nat) (key : Value) :
    Change ⟨control, stack, s⟩ (peek id key stack s) := by
  unfold peek
  split
  · exact change_of_same (shared_reply ..) (stack_reply ..)
  · rename_i c found
    split
    · exact change_refuse ..
    · rename_i hopened
      -- the read view is left when the copy has been made
      obtain ⟨hfree, -, rfl⟩ := ValueCache.openStored_eq_ok_iff.mp hopened
      exact .enter id .read _ found hfree rfl rfl
  · exact change_refuse ..

theorem change_openView (id : Nat) (mode : Mode) (key : Value) (body : Value → Program) :
    Change ⟨control, stack, s⟩ (openView id mode key body stack s) := by
  unfold openView
  split
  · exact change_refuse ..
  · rename_i hopened
    obtain ⟨r, found, hfree, rfl⟩ := Session.openView_eq_ok hopened
    exact .enter id mode r found hfree rfl rfl

theorem change_begin (p : Program) : Change ⟨.eval p, stack, s⟩ (begin p stack s) := by
  cases p with
  | done | fail | store => exact change_of_same rfl rfl
  | bind first next => exact .idle rfl (.inr ⟨.bind next, rfl, .inl rfl⟩)
  | attempt body kinds handler => exact .idle rfl (.inr ⟨.attempt kinds handler, rfl, .inl rfl⟩)
  | perform c => exact change_of_perform c (shared_reply ..) (stack_reply ..)
  | on thread body => exact .depart thread rfl rfl
  | timed label enabled body =>
    rw [begin, time]
    split
    · exact change_refuse ..
    · exact .idle rfl (.inr ⟨.timer label, rfl, .inl rfl⟩)
    · exact change_of_same rfl rfl
  | reach target next =>
    rw [begin]
    split
    · rename_i hlocate
      rcases Session.shared_locate hlocate with h | ⟨r, hr, h⟩
      · exact change_of_same h rfl
      · exact .make r hr h rfl
    · exact change_refuse ..
  | view place mode key body => exact change_openView ..
  | get place key compute => exact change_get ..
  | peek place key => exact change_peek ..
  | copy v => exact change_copy ..
  | invoke code call =>
    rw [begin, invoke]
    split
    · exact change_of_same rfl rfl
    · split
      · exact change_of_same rfl rfl
      · exact change_refuse ..
    · exact change_refuse ..
  | locate | resolve | fetch =>
    rw [begin]
    split
    · exact change_of_same rfl rfl
    · exact change_refuse ..

/-! ### Outcomes -/

theorem change_finish (id : Nat) (key : Spelled) (k : Key) (outcome : Except Fault Value) :
    Change ⟨.ofOutcome outcome, .computing id key k :: stack, s⟩
      (finish id key k outcome stack s) := by
  have hstack := stack_finish id key k outcome stack s
  unfold finish at hstack ⊢
  split
  · rename_i c found
    rw [found] at hstack
    refine .finish id key k c outcome rfl found ?_ (by rw [hstack])
    dsimp only
    split <;> exact Session.shared_foldl_report ..
  · rename_i hlost
    exact .stray _ (Session.shared_report ..) rfl fun c hc => hlost c hc

theorem change_resume (v : Value) (frame : Frame) :
    Change ⟨.give v, frame :: stack, s⟩ (resume v frame stack s) := by
  cases frame with
  | bind next => exact .idle rfl (.inr ⟨.bind next, rfl, .inr rfl⟩)
  | attempt kinds handler => exact .idle rfl (.inr ⟨.attempt kinds handler, rfl, .inr rfl⟩)
  | thread back => exact .comeBack back rfl rfl
  | timer label => exact .idle rfl (.inr ⟨.timer label, rfl, .inr rfl⟩)
  | release id mode => exact .leave id mode rfl rfl
  | computing id key k => exact change_finish stack s id key k (.ok v)
  | storing id k =>
    rw [resume, deposit]
    split
    · rename_i c found
      exact .deposit id c k v rfl found rfl rfl
    · rename_i hlost
      exact .stray _ (Session.shared_report ..) rfl fun c hc => hlost c hc

theorem change_unwind (f : Fault) (frame : Frame) :
    Change ⟨.raise f, frame :: stack, s⟩ (unwind f frame stack s) := by
  cases frame with
  | bind next => exact .idle rfl (.inr ⟨.bind next, rfl, .inr rfl⟩)
  | attempt kinds handler =>
    rw [unwind]
    split <;> exact .idle rfl (.inr ⟨.attempt kinds handler, rfl, .inr rfl⟩)
  | thread back => exact .comeBack back rfl rfl
  | timer label => exact .idle rfl (.inr ⟨.timer label, rfl, .inr rfl⟩)
  | release id mode => exact .leave id mode rfl rfl
  | computing id key k => exact change_finish stack s id key k (.error f)
  | storing id k => exact .abandon id k f rfl rfl rfl

/-! ### Steps and moves -/

/-- Every step changes cells, caches and their frames in one of the listed ways. -/
theorem step_change (m : Machine) : Change m m.step := by
  obtain ⟨control, stack, s⟩ := m
  cases control with
  | eval p => exact change_begin ..
  | give v =>
    cases stack with
    | nil => exact change_of_same rfl rfl
    | cons frame rest => exact change_resume ..
  | raise f =>
    cases stack with
    | nil => exact change_of_same rfl rfl
    | cons frame rest => exact change_unwind ..

theorem Move.change {m m' : Machine} (h : Move m m') : Change m m' := by
  cases h with
  | step => exact step_change m
  | next hend =>
    -- a program that has ended leaves no frames
    exact change_of_same rfl ((outcome?_isSome_iff m).mp hend).1.symm

/-- What is true of every machine without frames, cells, caches and open views, and stays true
whatever changes, is true of every machine of a session. -/
theorem Reachable.induction {P : Machine → Prop}
    (start : ∀ m : Machine, m.stack = [] → m.session.shared = ⟨"main", #[], ∅⟩ → P m)
    (change : ∀ m m' : Machine, Reachable m → P m → Change m m' → P m') {m : Machine}
    (hm : Reachable m) : P m := by
  obtain ⟨audience, environment, p, hm⟩ := hm
  induction hm with
  | refl => exact start _ rfl rfl
  | tail hleads hmove ih =>
    exact change _ _ ((Reachable.start audience environment p).leads hleads) ih hmove.change

/-- What is true at one point of a session, and stays true whatever changes, is true at every later
point. -/
theorem Reachable.induction_leads {P : Machine → Prop} {m m' : Machine} (hm : Reachable m)
    (hP : P m) (change : ∀ m m' : Machine, Reachable m → P m → Change m m' → P m')
    (h : Leads m m') : P m' := by
  induction h with
  | refl => exact hP
  | tail hleads hmove ih => exact change _ _ (hm.leads hleads) ih hmove.change

end Machine

end CheckedMemo
