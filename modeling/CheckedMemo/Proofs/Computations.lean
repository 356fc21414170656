import CheckedMemo.Proofs.Contents
import CheckedMemo.Proofs.Views

/-!
# Computations in progress

The frames of a machine say which computations are in progress, and on which thread each of them was
started (`Machine.computations`).  `Advance` is `Change` as far as computations and the contents of
caches go: a computation starts, ends without or with a value that is kept, or none of this happens.

Main statements:

* `Reachable.advance`: every move of a session is an `Advance`;
* `Reachable.sound`: no key of a cache is computed twice at a time, a key that a stable cache
  computes is marked for the thread that asked for it, and no key that is computed has a value.
-/

namespace CheckedMemo

/-! ### Frames and computations -/

/-- The key whose computation a frame waits for. -/
def Frame.task? : Frame → Option Task
  | .computing id _ k | .storing id k => some ⟨id, k⟩
  | _ => none

/-- The thread that the program is on below a frame, if it is on `thread` above it. -/
def Frame.threadBelow (thread : Thread) : Frame → Thread
  | .thread back => back
  | _ => thread

/-- A computation in progress, and the thread that it was started on. -/
structure Computation where
  task : Task
  thread : Thread

/-- The computations that frames wait for, innermost first. -/
def computations : List Frame → Thread → List Computation
  | [], _ => []
  | frame :: rest, thread =>
    match frame.task? with
    | some x => ⟨x, thread⟩ :: computations rest thread
    | none => computations rest (frame.threadBelow thread)

theorem map_task_computations (stack : List Frame) (thread : Thread) :
    (computations stack thread).map Computation.task = stack.filterMap Frame.task? := by
  induction stack generalizing thread with
  | nil => rfl
  | cons frame rest ih =>
    rw [computations]
    cases h : frame.task? with
    | none => rw [List.filterMap_cons_none h, ← ih]
    | some x => rw [List.filterMap_cons_some h, ← ih thread, List.map_cons]

theorem computations_of_isIdle {frame : Frame} (h : frame.isIdle = true) (rest : List Frame)
    (thread : Thread) : computations (frame :: rest) thread = computations rest thread := by
  cases frame with
  | bind | attempt | timer => rfl
  | _ => cases h

namespace Machine

variable {m m' : Machine}

/-- The computations in progress, innermost first. -/
def computations (m : Machine) : List Computation :=
  CheckedMemo.computations m.stack m.session.thread

/-- The keys that are being computed, innermost first. -/
def tasks (m : Machine) : List Task := m.stack.filterMap Frame.task?

theorem map_task_computations (m : Machine) : m.computations.map Computation.task = m.tasks :=
  CheckedMemo.map_task_computations ..

theorem mem_tasks_of_mem_computations {x : Computation} (h : x ∈ m.computations) :
    x.task ∈ m.tasks := by
  rw [← map_task_computations]
  exact List.mem_map_of_mem h

theorem tasks_of_computations {x : Computation} (h : m.computations = x :: m'.computations) :
    m.tasks = x.task :: m'.tasks := by
  rw [← map_task_computations, h, List.map_cons, map_task_computations]

/-! ### Frames and their caches -/

/-- How a change alters the stack. -/
theorem Change.stack_cases (h : Change m m') :
    m'.stack = m.stack ∨ (∃ frame, m.stack = frame :: m'.stack) ∨
      (∃ frame, frame.task? = none ∧ m'.stack = frame :: m.stack) ∨
      (∃ id key k c, k.isShowable = true ∧ m.session.resources[id]? = some (.stable c) ∧
        m'.stack = .computing id key k :: m.stack) ∨
      ∃ id k c, m.session.resources[id]? = some (.value c) ∧
        m'.stack = .storing id k :: .release id .write :: m.stack := by
  cases h with
  | idle _ stack =>
    rcases stack with hstack | ⟨frame, hframe, hstack | hstack⟩
    · exact .inl hstack
    · refine .inr (.inr (.inl ⟨frame, ?_, hstack⟩))
      cases frame with
      | computing | storing => cases hframe
      | _ => rfl
    · exact .inr (.inl ⟨frame, hstack⟩)
  | make _ _ _ stack | openNamed _ _ _ _ _ _ _ stack | closeNamed _ _ stack
  | hitStable _ _ _ _ _ _ _ stack => exact .inl stack
  | depart _ _ stack | enter _ _ _ _ _ _ stack | hitValue _ _ _ _ _ _ _ _ stack =>
    exact .inr (.inr (.inl ⟨_, rfl, stack⟩))
  | comeBack _ _ stack | leave _ _ _ stack | finish _ _ _ _ _ _ _ _ stack
  | deposit _ _ _ _ _ _ _ stack | abandon _ _ _ _ _ stack | stray _ _ stack =>
    exact .inr (.inl ⟨_, stack⟩)
  | missStable id c key k found _ _ _ _ showable _ _ stack =>
    exact .inr (.inr (.inr (.inl ⟨id, key, k, c, showable, found, stack⟩)))
  | missValue id c k found _ _ _ _ stack =>
    exact .inr (.inr (.inr (.inr ⟨id, k, c, found, stack⟩)))

end Machine

/-- Whether there is a cache of the right sort for a frame that waits for a computation.  A stable
cache computes no key that it cannot show. -/
def Frame.IsHosted (c : Shared) : Frame → Prop
  | .computing id _ k =>
    k.isShowable = true ∧ ∃ cache, c.resources[id]? = some (.stable cache)
  | .storing id _ => ∃ cache, c.resources[id]? = some (.value cache)
  | _ => True

theorem Frame.IsHosted.keeps {c c' : Shared} {frame : Frame} (h : frame.IsHosted c)
    (hkeeps : c.Keeps c') : frame.IsHosted c' := by
  cases frame with
  | computing id key k =>
    obtain ⟨hshowable, cache, found⟩ := h
    obtain ⟨r, found', hr⟩ := hkeeps id _ found
    obtain ⟨cache', rfl⟩ := hr.stable
    exact ⟨hshowable, cache', found'⟩
  | storing id k =>
    obtain ⟨cache, found⟩ := h
    obtain ⟨r, found', hr⟩ := hkeeps id _ found
    obtain ⟨cache', rfl⟩ := hr.value
    exact ⟨cache', found'⟩
  | _ => trivial

/-- Whether a frame that waits for a computation of a value cache stands inside a write view of the
cache, which a frame below it is going to release. -/
def Frame.IsEnclosed (rest : List Frame) : Frame → Prop
  | .storing id _ => .release id .write ∈ rest
  | _ => True

/-- Stacks on which every frame that waits for a computation has its cache, and those of value
caches stand inside write views. -/
inductive Framed (c : Shared) : List Frame → Prop where
  | nil : Framed c []
  | cons {frame : Frame} {rest : List Frame} (hosted : frame.IsHosted c)
    (enclosed : frame.IsEnclosed rest) (h : Framed c rest) : Framed c (frame :: rest)

namespace Framed

variable {c c' : Shared} {stack : List Frame}

theorem keeps (h : Framed c stack) (hkeeps : c.Keeps c') : Framed c' stack := by
  induction h with
  | nil => exact .nil
  | cons hosted enclosed _ ih => exact .cons (hosted.keeps hkeeps) enclosed ih

theorem of_task?_eq_none (h : Framed c stack) {frame : Frame} (hframe : frame.task? = none) :
    Framed c (frame :: stack) := by
  cases frame with
  | computing | storing => cases hframe
  | _ => exact .cons trivial trivial h

theorem hosted (h : Framed c stack) {frame : Frame} (hframe : frame ∈ stack) :
    frame.IsHosted c := by
  induction h with
  | nil => cases hframe
  | cons hosted enclosed _ ih =>
    rcases List.mem_cons.mp hframe with rfl | hframe
    · exact hosted
    · exact ih hframe

theorem release_mem (h : Framed c stack) {id : Nat} {k : Key} (hframe : .storing id k ∈ stack) :
    .release id .write ∈ stack := by
  induction h with
  | nil => cases hframe
  | cons hosted enclosed _ ih =>
    rcases List.mem_cons.mp hframe with rfl | hframe
    · exact List.mem_cons_of_mem _ enclosed
    · exact List.mem_cons_of_mem _ (ih hframe)

end Framed

namespace Machine

variable {m m' : Machine}

theorem Change.framed (hm : Framed m.session.shared m.stack) (h : Change m m') :
    Framed m'.session.shared m'.stack := by
  have hkeeps := h.keeps
  rcases h.stack_cases with
    hs | ⟨f, hs⟩ | ⟨f, hf, hs⟩ | ⟨id, key, k, c, hk, found, hs⟩ | ⟨id, k, c, found, hs⟩
  · rw [hs]
    exact hm.keeps hkeeps
  · rw [hs] at hm
    cases hm with
    | cons hosted enclosed h => exact h.keeps hkeeps
  · rw [hs]
    exact (hm.of_task?_eq_none hf).keeps hkeeps
  · have hcomputing : Framed m.session.shared (.computing id key k :: m.stack) :=
      .cons ⟨hk, c, found⟩ trivial hm
    rw [hs]
    exact hcomputing.keeps hkeeps
  · have hstoring : Framed m.session.shared (.storing id k :: .release id .write :: m.stack) :=
      .cons ⟨c, found⟩ List.mem_cons_self (.cons trivial trivial hm)
    rw [hs]
    exact hstoring.keeps hkeeps

theorem Reachable.framed (hm : Reachable m) : Framed m.session.shared m.stack := by
  refine hm.induction (P := fun n => Framed n.session.shared n.stack) ?_
    fun m m' _ hm hchange => hchange.framed hm
  intro m hstack _
  rw [hstack]
  exact .nil

/-! ### The course of computations -/

/-- A computation for a stable cache ends while a view of the cache is active. -/
def Strands (m : Machine) (x : Task) : Prop :=
  m.control.isOutcome = true ∧ ∃ key rest c, m.stack = .computing x.cache key x.key :: rest ∧
    m.session.resources[x.cache]? = some (.stable c) ∧ c.guard.isBorrowed = true

/-- The computation of `x` is called, and a frame waits for its outcome. -/
def Starts (m m' : Machine) (x : Task) : Prop :=
  Calls m m' x.cache x.key ∧ ∃ frame rest, m'.stack = frame :: rest ∧ frame.task? = some x ∧
    m.stack <:+ rest

/-- The outcome of the computation of `x` is taken to the frame that waits for it. -/
def Finishes (m m' : Machine) (x : Task) : Prop :=
  m.control.isOutcome = true ∧ ∃ frame, m.stack = frame :: m'.stack ∧ frame.task? = some x

/-- How a move alters the contents of caches and the computations in progress. -/
inductive Advance (m m' : Machine) : Prop where
  /-- No computation starts or ends. -/
  | calm (contents : m.session.shared.Alike m'.session.shared)
    (computations : m'.computations = m.computations)
  /-- The computation of a key that a stable cache has neither a value nor a mark for starts, and
  the key is marked for the current thread. -/
  | startStable (x : Task) (c : StableCache) (starts : Starts m m' x)
    (found : m.session.resources[x.cache]? = some (.stable c))
    (unstored : m.session.shared.stored x = none) (unmarked : m.session.shared.mark x = none)
    (stored : ∀ y, m'.session.shared.stored y = m.session.shared.stored y)
    (mark : ∀ y, m'.session.shared.mark y =
      if y = x then some m.session.thread else m.session.shared.mark y)
    (computations : m'.computations = ⟨x, m.session.thread⟩ :: m.computations)
  /-- The computation of a key that a value cache has no value for starts. -/
  | startValue (x : Task) (c : ValueCache) (starts : Starts m m' x)
    (found : m.session.resources[x.cache]? = some (.value c)) (fresh : x ∉ m.tasks)
    (unstored : m.session.shared.stored x = none)
    (contents : m.session.shared.Alike m'.session.shared)
    (computations : m'.computations = ⟨x, m.session.thread⟩ :: m.computations)
  /-- The innermost computation ends, and no value is stored: it has failed, or a view is active. -/
  | drop (x : Computation) (finishes : Finishes m m' x.task)
    (stored : ∀ y, m'.session.shared.stored y = m.session.shared.stored y)
    (others : ∀ y, y ≠ x.task → m'.session.shared.mark y = m.session.shared.mark y)
    (own : (∃ f, m.control = .raise f) ∧ m'.session.shared.mark x.task = none ∨
      m.Strands x.task ∧ m'.session.shared.mark x.task = m.session.shared.mark x.task)
    (computations : m.computations = x :: m'.computations)
  /-- The innermost computation ends with a value, and the key gets that value if it had none. -/
  | keep (x : Computation) (v : Value) (finishes : Finishes m m' x.task)
    (control : m.control = .give v)
    (value : m.session.shared.stored x.task = none → m'.session.shared.stored x.task = some v)
    (stored : ∀ y, y ≠ x.task → m'.session.shared.stored y = m.session.shared.stored y)
    (others : ∀ y, y ≠ x.task → m'.session.shared.mark y = m.session.shared.mark y)
    (own : m'.session.shared.mark x.task = none)
    (computations : m.computations = x :: m'.computations)

theorem isOutcome_ofOutcome (outcome : Except Fault Value) :
    (Control.ofOutcome outcome).isOutcome = true := by
  cases outcome <;> rfl

theorem eq_ofOutcome {control : Control} (h : control.isOutcome = true) :
    ∃ outcome, control = .ofOutcome outcome := by
  cases control with
  | eval p => cases h
  | give v => exact ⟨.ok v, rfl⟩
  | raise f => exact ⟨.error f, rfl⟩

/-- A computation for a value cache starts only if the cache computes nothing. -/
theorem Reachable.not_mem_tasks (hm : Reachable m) {x : Task} {c : ValueCache}
    (found : m.session.resources[x.cache]? = some (.value c)) (free : c.guard.isBorrowed = false) :
    x ∉ m.tasks := by
  intro hx
  obtain ⟨frame, hframe, htask⟩ := List.mem_filterMap.mp hx
  have hhosted := hm.framed.hosted hframe
  cases frame with
  | computing id key k =>
    cases htask
    obtain ⟨-, c', found'⟩ := hhosted
    cases found.symm.trans found'
  | storing id k =>
    -- the frame stands inside a write view, which would be active
    cases htask
    exact hm.release_not_mem found free .write (hm.framed.release_mem hframe)
  | _ => cases htask

theorem advance_of_startStable {x : Task} {c : StableCache} (starts : Starts m m' x)
    (found : m.session.resources[x.cache]? = some (.stable c))
    (absent : c.slots.get? x.key = none) (unmarked : c.pending.get? x.key = none)
    (shared : m'.session.shared = m.session.shared.set x.cache
      (.stable { c with pending := c.pending.insert x.key m.session.thread }))
    (computations : m'.computations = ⟨x, m.session.thread⟩ :: m.computations) :
    Advance m m' := by
  refine .startStable x c starts found ?_ ?_ ?_ ?_ computations
  · rw [Shared.stored_of_found (c := m.session.shared) found]
    exact absent
  · rw [Shared.mark_of_found (c := m.session.shared) found]
    exact unmarked
  · intro y
    rw [shared]
    refine Shared.stored_set_of_slots (c := m.session.shared) found ?_ y
    rfl
  · intro y
    rw [shared]
    by_cases hy : y = x
    · rw [if_pos hy, hy, Shared.mark_set_own (c := m.session.shared) found]
      simp [Resource.pending]
    · rw [if_neg hy]
      refine Shared.mark_set_other (c := m.session.shared) found ?_ hy
      intro k hk
      simp [Resource.pending, hk]

/-- The end of a computation for a stable cache. -/
theorem advance_of_finish {x : Task} {key : Spelled} {c : StableCache}
    {outcome : Except Fault Value} (control : m.control = .ofOutcome outcome)
    (found : m.session.resources[x.cache]? = some (.stable c))
    (shared : m'.session.shared =
      m.session.shared.set x.cache (.stable (c.finish key x.key outcome).cache))
    (stack : m.stack = .computing x.cache key x.key :: m'.stack)
    (computations : m.computations = ⟨x, m.session.thread⟩ :: m'.computations) :
    Advance m m' := by
  have houtcome : m.control.isOutcome = true := control ▸ isOutcome_ofOutcome outcome
  have hfinishes : Finishes m m' x := ⟨houtcome, _, stack, rfl⟩
  by_cases hborrowed : c.guard.isBorrowed = true
  · -- a view is in the way, so the cache stays as it is
    obtain ⟨-, -, hcache, -⟩ := StableCache.finish_of_borrowed hborrowed key x.key outcome
    have halike : m.session.shared.Alike m'.session.shared := by
      rw [shared, hcache]
      exact .of_set (c := m.session.shared) found rfl rfl
    have hstrands : m.Strands x := ⟨houtcome, key, m'.stack, c, stack, found, hborrowed⟩
    exact .drop ⟨x, m.session.thread⟩ hfinishes halike.stored (fun y _ => halike.mark y)
      (.inr ⟨hstrands, halike.mark x⟩) computations
  rw [Bool.not_eq_true] at hborrowed
  cases outcome with
  | error f =>
    rw [StableCache.finish_error_of_free hborrowed] at shared
    refine .drop ⟨x, m.session.thread⟩ hfinishes ?_ ?_ (.inl ⟨⟨f, control⟩, ?_⟩) computations
    · intro y
      rw [shared]
      refine Shared.stored_set_of_slots (c := m.session.shared) found ?_ y
      rfl
    · intro y hy
      rw [shared]
      refine Shared.mark_set_other (c := m.session.shared) found ?_ hy
      intro k hk
      simp [Resource.pending, StableCache.withdraw, hk]
    · rw [shared, Shared.mark_set_own (c := m.session.shared) found]
      simp [Resource.pending, StableCache.withdraw]
  | ok v =>
    rw [StableCache.finish_ok_of_free hborrowed] at shared
    refine .keep ⟨x, m.session.thread⟩ v hfinishes control ?_ ?_ ?_ ?_ computations
    · -- a value that is there already is kept
      intro hnone
      have habsent : c.slots.get? x.key = none := by
        rw [Shared.stored_of_found (c := m.session.shared) found] at hnone
        exact hnone
      rw [shared, Shared.stored_set_own (c := m.session.shared) found]
      simp [Resource.slots, habsent]
    · intro y hy
      rw [shared]
      refine Shared.stored_set_other (c := m.session.shared) found ?_ hy
      intro k hk
      simp [Resource.slots, hk]
    · intro y hy
      rw [shared]
      refine Shared.mark_set_other (c := m.session.shared) found ?_ hy
      intro k hk
      simp [Resource.pending, hk]
    · rw [shared, Shared.mark_set_own (c := m.session.shared) found]
      simp [Resource.pending]

/-- A value cache keeps what was computed. -/
theorem advance_of_deposit {x : Task} {c : ValueCache} {v : Value} (control : m.control = .give v)
    (found : m.session.resources[x.cache]? = some (.value c))
    (shared : m'.session.shared =
      m.session.shared.set x.cache (.value (c.deposit x.key v)))
    (stack : m.stack = .storing x.cache x.key :: m'.stack)
    (computations : m.computations = ⟨x, m.session.thread⟩ :: m'.computations) :
    Advance m m' := by
  have hfinishes : Finishes m m' x := ⟨control ▸ rfl, _, stack, rfl⟩
  refine .keep ⟨x, m.session.thread⟩ v hfinishes control ?_ ?_ ?_ ?_ computations
  · intro _
    rw [shared, Shared.stored_set_own (c := m.session.shared) found]
    simp [Resource.slots, ValueCache.deposit]
  · intro y hy
    rw [shared]
    refine Shared.stored_set_other (c := m.session.shared) found ?_ hy
    intro k hk
    simp [Resource.slots, ValueCache.deposit, hk]
  · intro y hy
    rw [shared]
    exact Shared.mark_set_other (c := m.session.shared) found (fun _ _ => rfl) hy
  · rw [shared, Shared.mark_set_own (c := m.session.shared) found]
    rfl

/-- A computation for a value cache fails. -/
theorem advance_of_abandon {x : Task} {f : Fault} (control : m.control = .raise f)
    (shared : m'.session.shared = m.session.shared) (unmarked : m.session.shared.mark x = none)
    (stack : m.stack = .storing x.cache x.key :: m'.stack)
    (computations : m.computations = ⟨x, m.session.thread⟩ :: m'.computations) :
    Advance m m' := by
  have hfinishes : Finishes m m' x := ⟨control ▸ rfl, _, stack, rfl⟩
  refine .drop ⟨x, m.session.thread⟩ hfinishes ?_ ?_ (.inl ⟨⟨f, control⟩, ?_⟩) computations
  · intro y
    rw [shared]
  · intro y _
    rw [shared]
  · rw [shared]
    exact unmarked

/-- Every move of a session is an advance. -/
theorem Reachable.advance (hm : Reachable m) (h : Change m m') : Advance m m' := by
  have hthread {c : Shared} (hc : m'.session.shared = c) : m'.session.thread = c.thread :=
    congrArg Shared.thread hc
  cases h with
  | idle shared stack =>
    have hcalm : m'.session.thread = m.session.thread := hthread shared
    refine .calm (shared ▸ .of_resources rfl) ?_
    rcases stack with hs | ⟨frame, hframe, hs | hs⟩
    · rw [Machine.computations, hs, hcalm, Machine.computations]
    · rw [Machine.computations, hs, hcalm, computations_of_isIdle hframe, Machine.computations]
    · rw [Machine.computations, Machine.computations, hs, hcalm, computations_of_isIdle hframe]
  | make r new shared stack =>
    refine .calm (shared ▸ .of_push new) ?_
    rw [Machine.computations, stack, hthread shared]
    rfl
  | depart thread shared stack =>
    refine .calm (shared ▸ .of_resources rfl) ?_
    rw [Machine.computations, stack, hthread shared]
    rfl
  | comeBack back shared stack =>
    refine .calm (shared ▸ .of_resources rfl) ?_
    rw [Machine.computations, Machine.computations, stack, hthread shared]
    rfl
  | enter id mode r found free shared stack =>
    refine .calm ?_ ?_
    · rw [shared]
      exact .of_set (c := m.session.shared) found (Resource.slots_mapGuard ..)
        (Resource.pending_mapGuard ..)
    · rw [Machine.computations, stack, hthread shared]
      rfl
  | leave id mode shared stack =>
    refine .calm (shared ▸ .of_release m.session id mode) ?_
    rw [Machine.computations, Machine.computations, stack,
      (hthread shared).trans (m.session.thread_release id mode)]
    rfl
  | openNamed name id mode r found free shared stack =>
    have hset : m.session.shared.Alike (m.session.shared.set id (r.mapGuard (·.acquire mode))) :=
      .of_set found (Resource.slots_mapGuard ..) (Resource.pending_mapGuard ..)
    have hdrop := Shared.Alike.of_dropNamed (m.session.setResource id (r.mapGuard (·.acquire mode)))
      name
    refine .calm (shared ▸ (hset.trans hdrop).trans (.of_resources rfl)) ?_
    rw [Machine.computations, Machine.computations, stack,
      (hthread shared).trans (Session.thread_dropNamed ..)]
    rfl
  | closeNamed name shared stack =>
    refine .calm (shared ▸ .of_dropNamed m.session name) ?_
    rw [Machine.computations, Machine.computations, stack,
      (hthread shared).trans (m.session.thread_dropNamed name)]
  | hitStable id c k v found stored shared stack =>
    refine .calm (shared ▸ .of_set found rfl rfl) ?_
    rw [Machine.computations, stack, hthread shared]
    rfl
  | missStable id c key k found free absent unmarked indexed showable calls shared stack =>
    refine advance_of_startStable (x := ⟨id, k⟩) ⟨calls, _, _, stack, rfl, List.suffix_rfl⟩ found
      absent unmarked shared ?_
    rw [Machine.computations, stack, hthread shared]
    rfl
  | finish id key k c outcome control found shared stack =>
    refine advance_of_finish (x := ⟨id, k⟩) control found shared stack ?_
    rw [Machine.computations, Machine.computations, stack, hthread shared]
    rfl
  | hitValue id c k v found free stored shared stack =>
    refine .calm (shared ▸ .of_set found rfl rfl) ?_
    rw [Machine.computations, stack, hthread shared]
    rfl
  | missValue id c k found free absent calls shared stack =>
    -- the cache has no marks: a computation in progress would hold a write view
    refine .startValue ⟨id, k⟩ c ⟨calls, _, _, stack, rfl, List.suffix_cons ..⟩ found
      (hm.not_mem_tasks found free) ?_ (shared ▸ .of_set found rfl rfl) ?_
    · rw [Shared.stored_of_found (c := m.session.shared) found]
      exact absent
    · rw [Machine.computations, stack, hthread shared]
      rfl
  | deposit id c k v control found shared stack =>
    refine advance_of_deposit (x := ⟨id, k⟩) control found shared stack ?_
    rw [Machine.computations, Machine.computations, stack, hthread shared]
    rfl
  | abandon id k f control shared stack =>
    obtain ⟨c, found⟩ := hm.framed.hosted (stack ▸ List.mem_cons_self)
    refine advance_of_abandon (x := ⟨id, k⟩) control shared ?_ stack ?_
    · rw [Shared.mark_of_found (c := m.session.shared) found]
      rfl
    · rw [Machine.computations, Machine.computations, stack, hthread shared]
      rfl
  | stray frame shared stack lost =>
    -- every frame that waits for a computation has its cache
    have hhosted := hm.framed.hosted (stack ▸ List.mem_cons_self)
    cases frame with
    | computing id key k =>
      obtain ⟨-, c, found⟩ := hhosted
      exact absurd found (lost c)
    | storing id k =>
      obtain ⟨c, found⟩ := hhosted
      exact absurd found (lost c)
    | _ => exact lost.elim

/-- A move leaves the computations in progress as they are, or it starts one on the current thread,
or it ends the innermost one. -/
theorem Reachable.computations_cases (hm : Reachable m) (h : Change m m') :
    m'.computations = m.computations ∨
      (∃ x, Starts m m' x ∧ m'.computations = ⟨x, m.session.thread⟩ :: m.computations) ∨
      ∃ x, Finishes m m' x.task ∧ m.computations = x :: m'.computations := by
  cases hm.advance h with
  | calm _ computations => exact .inl computations
  | startStable x _ starts _ _ _ _ _ computations | startValue x _ starts _ _ _ _ computations =>
    exact .inr (.inl ⟨x, starts, computations⟩)
  | drop x finishes _ _ _ computations | keep x _ finishes _ _ _ _ _ computations =>
    exact .inr (.inr ⟨x, finishes, computations⟩)

/-! ### What is true of computations in progress -/

/-- The keys in progress are distinct and without values, and those of stable caches are marked for
the threads that their computations were started on. -/
structure Sound (m : Machine) : Prop where
  distinct : m.tasks.Nodup
  marked : ∀ x ∈ m.computations, m.session.shared.mark x.task = some x.thread ∨
    ∃ c, m.session.resources[x.task.cache]? = some (.value c)
  unstored : ∀ x ∈ m.tasks, m.session.shared.stored x = none

/-- A stable cache computes no key that is not marked. -/
theorem Sound.not_mem_tasks (hm : m.Sound) {x : Task} {c : StableCache}
    (found : m.session.resources[x.cache]? = some (.stable c))
    (unmarked : m.session.shared.mark x = none) : x ∉ m.tasks := by
  intro hx
  rw [← map_task_computations] at hx
  obtain ⟨y, hy, rfl⟩ := List.mem_map.mp hx
  rcases hm.marked y hy with hmark | ⟨c', found'⟩
  · cases unmarked.symm.trans hmark
  · cases found.symm.trans found'

theorem Sound.value_keeps (h : Change m m') {x : Computation}
    (hx : ∃ c, m.session.resources[x.task.cache]? = some (.value c)) :
    ∃ c, m'.session.resources[x.task.cache]? = some (.value c) := by
  obtain ⟨c, found⟩ := hx
  obtain ⟨r, found', hr⟩ := h.keeps _ _ found
  obtain ⟨c', rfl⟩ := hr.value
  exact ⟨c', found'⟩

/-- A computation starts. -/
theorem Sound.start (hm : m.Sound) {x : Computation} (fresh : x.task ∉ m.tasks)
    (h : Change m m') (computations : m'.computations = x :: m.computations)
    (stored : ∀ y, m'.session.shared.stored y = m.session.shared.stored y)
    (unstored : m.session.shared.stored x.task = none)
    (others : ∀ y, y ≠ x.task → m'.session.shared.mark y = m.session.shared.mark y)
    (own : m'.session.shared.mark x.task = some x.thread ∨
      ∃ c, m.session.resources[x.task.cache]? = some (.value c)) : m'.Sound := by
  have htasks : m'.tasks = x.task :: m.tasks := tasks_of_computations computations
  constructor
  · rw [htasks]
    exact List.nodup_cons.mpr ⟨fresh, hm.distinct⟩
  · intro y hy
    rw [computations] at hy
    rcases List.mem_cons.mp hy with rfl | hy
    · exact own.imp_right (value_keeps h)
    · have hne : y.task ≠ x.task := fun heq => fresh (heq ▸ mem_tasks_of_mem_computations hy)
      rw [others _ hne]
      exact (hm.marked y hy).imp_right (value_keeps h)
  · intro y hy
    rw [htasks] at hy
    rw [stored]
    rcases List.mem_cons.mp hy with rfl | hy
    · exact unstored
    · exact hm.unstored y hy

/-- The innermost computation ends. -/
theorem Sound.finish (hm : m.Sound) {x : Computation} (h : Change m m')
    (computations : m.computations = x :: m'.computations)
    (stored : ∀ y, y ≠ x.task → m'.session.shared.stored y = m.session.shared.stored y)
    (others : ∀ y, y ≠ x.task → m'.session.shared.mark y = m.session.shared.mark y) :
    m'.Sound := by
  have htasks : m.tasks = x.task :: m'.tasks := tasks_of_computations computations
  obtain ⟨hx, hdistinct⟩ := List.nodup_cons.mp (htasks ▸ hm.distinct)
  constructor
  · exact hdistinct
  · intro y hy
    have hne : y.task ≠ x.task := fun heq => hx (heq ▸ mem_tasks_of_mem_computations hy)
    rw [others _ hne]
    exact (hm.marked y (computations ▸ List.mem_cons_of_mem x hy)).imp_right (value_keeps h)
  · intro y hy
    have hne : y ≠ x.task := fun heq => hx (heq ▸ hy)
    rw [stored _ hne]
    exact hm.unstored y (htasks ▸ List.mem_cons_of_mem _ hy)

theorem Sound.change (hr : Reachable m) (hm : m.Sound) (h : Change m m') : m'.Sound := by
  cases hr.advance h with
  | calm contents computations =>
    have htasks : m'.tasks = m.tasks := by
      rw [← map_task_computations, computations, map_task_computations]
    constructor
    · rw [htasks]
      exact hm.distinct
    · intro x hx
      rw [contents.mark]
      exact (hm.marked x (computations ▸ hx)).imp_right (value_keeps h)
    · intro x hx
      rw [contents.stored]
      exact hm.unstored x (htasks ▸ hx)
  | startStable x c starts found unstored unmarked stored mark computations =>
    refine hm.start (hm.not_mem_tasks found unmarked) h computations stored unstored ?_ (.inl ?_)
    · intro y hy
      rw [mark, if_neg hy]
    · rw [mark, if_pos rfl]
  | startValue x c starts found fresh unstored contents computations =>
    exact hm.start fresh h computations contents.stored unstored (fun y _ => contents.mark y)
      (.inr ⟨c, found⟩)
  | drop x finishes stored others own computations =>
    exact hm.finish h computations (fun y _ => stored y) others
  | keep x v finishes control value stored others own computations =>
    exact hm.finish h computations stored others

theorem Reachable.sound (hm : Reachable m) : m.Sound := by
  refine hm.induction ?_ fun m m' hr hm hchange => hm.change hr hchange
  intro m hstack _
  have htasks : m.tasks = [] := by
    rw [tasks, hstack]
    rfl
  have hcomputations : m.computations = [] := by
    rw [Machine.computations, hstack]
    rfl
  refine ⟨htasks ▸ List.nodup_nil, fun x hx => ?_, fun x hx => ?_⟩
  · exact absurd (hcomputations ▸ hx) List.not_mem_nil
  · exact absurd (htasks ▸ hx) List.not_mem_nil

/-- As long as a key is computed, its mark stays the same. -/
theorem Reachable.mark_of_mem_tasks (hm : Reachable m) (h : Change m m') {x : Task}
    (hx : x ∈ m.tasks) (hx' : x ∈ m'.tasks) :
    m'.session.shared.mark x = m.session.shared.mark x := by
  -- a computation that ends is not that of `x`, which is still in progress
  have hne {y : Computation} (hy : m.computations = y :: m'.computations) : x ≠ y.task := by
    have hdistinct : (y.task :: m'.tasks).Nodup := tasks_of_computations hy ▸ hm.sound.distinct
    rintro rfl
    exact (List.nodup_cons.mp hdistinct).1 hx'
  cases hm.advance h with
  | calm contents => exact contents.mark x
  | startStable y c starts found unstored unmarked stored mark =>
    have hxy : x ≠ y := by
      rintro rfl
      exact hm.sound.not_mem_tasks found unmarked hx
    rw [mark, if_neg hxy]
  | startValue y c starts found fresh unstored contents => exact contents.mark x
  | drop y finishes stored others own computations => exact others x (hne computations)
  | keep y v finishes control value stored others own computations =>
    exact others x (hne computations)

/-- A computation ends with the mark that it has been started with. -/
theorem Reachable.mark_of_ends (hm : Reachable m) {frame : Frame} {rest : List Frame} {x : Task}
    (htask : frame.task? = some x) (hsuffix : frame :: rest <:+ m.stack)
    (h : Ends (frame :: rest) m m') :
    m'.session.shared.mark x = m.session.shared.mark x := by
  have hmem {n : Machine} (hn : frame :: rest <:+ n.stack) : x ∈ n.tasks :=
    List.mem_filterMap.mpr ⟨frame, hn.subset List.mem_cons_self, htask⟩
  induction h with
  | here => rfl
  | @step m m' hne _ ih =>
    -- the frame stays on the stack, so the key is in progress all the time
    have hstep := suffix_step hsuffix hne
    rw [ih (hm.move (Ends.move hsuffix hne)) hstep]
    exact hm.mark_of_mem_tasks (step_change m) (hmem hsuffix) (hmem hstep)

/-! ### Keys that nothing happens to any more -/

theorem mark_of_value {x : Task} {c : ValueCache}
    (found : m.session.resources[x.cache]? = some (.value c)) : m.session.shared.mark x = none := by
  rw [Shared.mark_of_found (c := m.session.shared) found]
  rfl

/-- A key is settled if it is not in progress and its cache will not compute it again: it has a
value, or a mark that nothing will take away. -/
structure Settled (m : Machine) (x : Task) : Prop where
  ended : x ∉ m.tasks
  blocked : m.session.shared.stored x ≠ none ∨ m.session.shared.mark x ≠ none

/-- A key that is settled stays as it is. -/
theorem Settled.change {x : Task} (hr : Reachable m) (hm : m.Settled x) (h : Change m m') :
    m'.Settled x ∧ m'.session.shared.stored x = m.session.shared.stored x ∧
      m'.session.shared.mark x = m.session.shared.mark x := by
  obtain ⟨hended, hblocked⟩ := hm
  have settled (htasks : x ∉ m'.tasks)
      (hstored : m'.session.shared.stored x = m.session.shared.stored x)
      (hmark : m'.session.shared.mark x = m.session.shared.mark x) :
      m'.Settled x ∧ m'.session.shared.stored x = m.session.shared.stored x ∧
        m'.session.shared.mark x = m.session.shared.mark x :=
    ⟨⟨htasks, by rwa [hstored, hmark]⟩, hstored, hmark⟩
  cases hr.advance h with
  | calm contents computations =>
    refine settled ?_ (contents.stored x) (contents.mark x)
    rwa [← map_task_computations, computations, map_task_computations]
  | startStable y c starts found unstored unmarked stored mark computations =>
    -- what starts has neither a value nor a mark
    have hne : x ≠ y := by
      rintro rfl
      exact hblocked.elim (absurd unstored) (absurd unmarked)
    refine settled ?_ (stored x) (by rw [mark, if_neg hne])
    rw [tasks_of_computations computations, List.mem_cons, not_or]
    exact ⟨hne, hended⟩
  | startValue y c starts found fresh unstored contents computations =>
    have hne : x ≠ y := by
      rintro rfl
      exact hblocked.elim (absurd unstored) (absurd (mark_of_value found))
    refine settled ?_ (contents.stored x) (contents.mark x)
    rw [tasks_of_computations computations, List.mem_cons, not_or]
    exact ⟨hne, hended⟩
  | drop y finishes stored others own computations =>
    rw [tasks_of_computations computations, List.mem_cons, not_or] at hended
    exact settled hended.2 (stored x) (others x hended.1)
  | keep y v finishes control value stored others own computations =>
    rw [tasks_of_computations computations, List.mem_cons, not_or] at hended
    exact settled hended.2 (stored x hended.1) (others x hended.1)

theorem Settled.leads {x : Task} (hr : Reachable m) (hm : m.Settled x) (h : Leads m m') :
    m'.Settled x ∧ m'.session.shared.stored x = m.session.shared.stored x ∧
      m'.session.shared.mark x = m.session.shared.mark x := by
  refine hr.induction_leads (P := fun n => n.Settled x ∧
    n.session.shared.stored x = m.session.shared.stored x ∧
      n.session.shared.mark x = m.session.shared.mark x) ⟨hm, rfl, rfl⟩ ?_ h
  rintro n n' hr ⟨hn, hstored, hmark⟩ hchange
  obtain ⟨hn', hstored', hmark'⟩ := hn.change hr hchange
  exact ⟨hn', hstored'.trans hstored, hmark'.trans hmark⟩

/-! ### Ends of computations -/

/-- The computation of `x` hands a value to the frame that waits for it. -/
def Returns (m : Machine) (x : Task) (v : Value) : Prop :=
  m.control = .give v ∧ ∃ frame rest, m.stack = frame :: rest ∧ frame.task? = some x

theorem Returns.tasks_eq {x : Task} {v : Value} (h : m.Returns x v) :
    m.tasks = x :: m.step.tasks := by
  obtain ⟨hcontrol, frame, rest, hstack, htask⟩ := h
  have hstep : m.step.stack = rest := stack_step_of_isOutcome hstack (by rw [hcontrol]; rfl)
  rw [tasks, hstack, List.filterMap_cons_some htask, tasks, hstep]

end Machine

end CheckedMemo
