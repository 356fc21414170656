import CheckedMemo.Proofs.Borrowing
import CheckedMemo.Proofs.Replacement
import CheckedMemo.Proofs.Requests
import CheckedMemo.Proofs.Trails

/-!
# Stable caches and their twins

The twin of a stable cache is the value cache with the same contents.  A machine whose session holds
a stable cache is followed step by step by one whose session holds the twin instead (`Level`),
except that a value cache takes up to two steps more to hand a value or a fault over: it copies the
value, and leaves its view (`Behind`).  While the stable cache is used properly (`isProper`), each
of its steps leads to one of the two (`Level.advance`), and what the second machine is behind it
makes up for while the first waits (`Behind.advance`).
-/

namespace CheckedMemo

/-- Whether a copy of the value is the value itself. -/
def Value.isPlain : Value → Bool
  | .list _ | .dict _ | .object _ => false
  | _ => true

/-- Whether a program is one of the calls that stable caches and value caches have in common: a
request, a peek, a membership test, the size, or the counts of hits and misses. -/
def Program.isCall : Program → Bool
  | .get .. | .peek .. => true
  | .perform (.inspect (.contains ..)) | .perform (.inspect (.size _))
  | .perform (.inspect (.stats _)) => true
  | _ => false

/-- Whether a frame waits for a computation of a stable cache. -/
def Frame.computes (id : Nat) : Frame → Bool
  | .computing i _ _ => i = id
  | _ => false

/-- The frames that stand for a frame if the stable cache `id` is a value cache. -/
def Frame.twin (id : Nat) : Frame → List Frame
  | .computing i key k =>
    if i = id then [.storing i k, .release i .write] else [.computing i key k]
  | frame => [frame]

/-- The value cache that has the contents of a stable cache; it is being written to while it
computes. -/
def StableCache.twin (c : StableCache) (busy : Bool) : ValueCache where
  guard := { c.guard with writing := busy }
  slots := c.slots
  hits := c.hits
  misses := c.misses

namespace Frame

variable {id : Nat} {frame : Frame}

theorem twin_of_resource?_ne (h : frame.resource? ≠ some id) : frame.twin id = [frame] := by
  cases frame with
  | computing i key k => exact if_neg fun hi => h (congrArg some hi)
  | _ => rfl

theorem twin_computing (id : Nat) (key : Spelled) (k : Key) :
    (Frame.computing id key k).twin id = [.storing id k, .release id .write] := if_pos rfl

theorem twin_ne_nil (id : Nat) (frame : Frame) : frame.twin id ≠ [] := by
  cases frame with
  | computing i key k =>
    rw [twin]
    split <;> exact List.cons_ne_nil _ _
  | _ => exact List.cons_ne_nil _ _

theorem computes_computing (id : Nat) (key : Spelled) (k : Key) :
    (Frame.computing id key k).computes id = true := decide_eq_true rfl

theorem not_computes_of_resource?_ne (h : frame.resource? ≠ some id) :
    ¬frame.computes id = true := by
  cases frame with
  | computing i key k => exact fun hi => h (congrArg some (of_decide_eq_true hi))
  | _ => exact Bool.false_ne_true

end Frame

/-! ### Caches of both kinds -/

namespace StableCache

variable {c : StableCache} {q : Request}

theorem guard_twin (free : c.guard.isBorrowed = false) : (c.twin false).guard = c.guard := by
  have hwriting : c.guard.writing = false := (Bool.or_eq_false_iff.mp free).1
  show { c.guard with writing := false } = c.guard
  rw [← hwriting]

/-- While nothing is marked and no view active, both kinds of caches answer a request alike. -/
theorem start_twin (free : c.guard.isBorrowed = false) (unmarked : ∀ k, c.pending.get? k = none)
    (thread : Thread) (q : Request) :
    (∃ f, c.start thread q = .error f ∧ (c.twin false).start q = .error f) ∨
    (∃ k v, c.slots.get? k = some v ∧
      c.start thread q = .ok (.hit v { c with hits := c.hits + 1 }) ∧
      (c.twin false).start q =
        .ok (.hit v { (c.twin false).acquire .write with hits := c.hits + 1 })) ∨
    ∃ key k, c.slots.get? k = none ∧
      c.start thread q = .ok (.miss key k { c with pending := c.pending.insert k thread }) ∧
      (c.twin false).start q = .ok (.miss key k ((c.twin false).acquire .write)) := by
  have hread := Guard.obstacle?_of_not_isBorrowed free .read
  have hwrite := Guard.obstacle?_of_not_isBorrowed free .write
  unfold start ValueCache.start
  rw [guard_twin free, Guard.allow_of_free hread, Guard.allow_of_free hwrite, ok_bind, ok_bind]
  cases q.index with
  | error f => exact .inl ⟨f, rfl, rfl⟩
  | ok k =>
    rw [ok_bind, ok_bind, show (c.twin false).slots = c.slots from rfl]
    cases hslot : c.slots.get? k with
    | some v => exact .inr (.inl ⟨k, v, hslot, rfl, rfl⟩)
    | none =>
      dsimp only
      rw [reserve_eq_ok_iff.mpr ⟨hwrite, unmarked k, rfl⟩, ok_bind]
      cases q.spelled with
      | error f => exact .inl ⟨f, rfl, rfl⟩
      | ok key => exact .inr (.inr ⟨key, k, hslot, rfl, rfl⟩)

theorem peek_twin (free : c.guard.isBorrowed = false) (q : Request) :
    (∃ f, c.peek q = .error f ∧ (c.twin false).openStored q = .error f) ∨
      ∃ k v, c.slots.get? k = some v ∧ c.peek q = .ok v ∧
        (c.twin false).openStored q = .ok (v, (c.twin false).acquire .read) := by
  have hread := Guard.obstacle?_of_not_isBorrowed free .read
  unfold peek find ValueCache.openStored
  rw [guard_twin free, Guard.allow_of_free hread, ok_bind, ok_bind]
  cases q.index with
  | error f => exact .inl ⟨f, rfl, rfl⟩
  | ok k =>
    rw [ok_bind, ok_bind, show (c.twin false).slots = c.slots from rfl]
    cases hslot : c.slots.get? k with
    | some v => exact .inr ⟨k, v, hslot, rfl, rfl⟩
    | none =>
      have hlabel : (c.twin false).label = c.label := rfl
      dsimp only
      rw [hlabel]
      exact .inl ⟨_, rfl, rfl⟩

theorem contains_twin (free : c.guard.isBorrowed = false) (q : Request) :
    (c.twin false).contains q = c.contains q := by
  have hread := Guard.obstacle?_of_not_isBorrowed free .read
  unfold contains find ValueCache.contains
  rw [guard_twin free, Guard.allow_of_free hread, ok_bind, ok_bind]
  cases q.index <;> rfl

theorem size_twin (free : c.guard.isBorrowed = false) (q : Request) :
    (c.twin false).size q = c.size q := by
  unfold size ValueCache.size
  rw [guard_twin free]
  rfl

/-- Storing a value for a key that has none is the same in both kinds of caches. -/
theorem deposit_twin {k : Key} (absent : c.slots.get? k = none) (v : Value) :
    (c.twin true).deposit k v = ((c.deposit k v).twin false).acquire .write := by
  have hslots : c.slots.insertIfNew k v = c.slots.insert k v := by
    rw [Table.insertIfNew, Table.contains, absent]
    rfl
  show (⟨_, c.slots.insert k v, _, _⟩ : ValueCache) = ⟨_, c.slots.insertIfNew k v, _, _⟩
  rw [hslots]
  rfl

/-- The twin that has left a view is as it was before. -/
theorem release_twin (free : c.guard.isBorrowed = false) (mode : Mode) :
    (Resource.value ((c.twin false).acquire mode)).mapGuard (·.release mode) =
      .value (c.twin false) := by
  have hfree : (c.twin false).guard.obstacle? mode = none := by
    rw [guard_twin free]
    exact Guard.obstacle?_of_not_isBorrowed free mode
  show Resource.value { c.twin false with
    guard := ((c.twin false).guard.acquire mode).release mode } = _
  rw [Guard.release_acquire _ mode hfree]

end StableCache

namespace Machine

open Session (Beside)

variable {id : Nat} {c : StableCache} {m m' n n' : Machine} {stack : List Frame} {s t : Session}
  {mode : Mode}

/-! ### Calls of computations -/

/-- What a cache is asked with when it calls a computation. -/
structure Invocation where
  key : Value
  compute : Value → Program

/-- The computations that a step makes a cache call: none or one. -/
inductive Makes (id : Nat) (m : Machine) : List Invocation → Prop
  | none (silent : ∀ k, ¬Starts m m.step ⟨id, k⟩) : Makes id m []
  | call {place : Place} {key : Value} {compute : Value → Program} {k : Key}
    (control : m.control = .eval (.get place key compute)) (starts : Starts m m.step ⟨id, k⟩) :
    Makes id m [⟨key, compute⟩]

theorem Makes.unique {made made' : List Invocation} (h : Makes id m made) (h' : Makes id m made') :
    made' = made := by
  cases h with
  | none silent =>
    cases h' with
    | none => rfl
    | call _ starts => exact absurd starts (silent _)
  | call control starts =>
    cases h' with
    | none silent => exact absurd starts (silent _)
    | call control' =>
      cases control.symm.trans control'
      rfl

theorem Makes.of_isOutcome (h : m.control.isOutcome = true) : Makes id m [] :=
  .none fun _ => not_starts_of_isOutcome h _

theorem Makes.of_step_isOutcome (h : m.step.control.isOutcome = true) : Makes id m [] :=
  .none fun _ => not_starts_of_step_isOutcome h _

/-- A step that does not ask the cache makes it call nothing. -/
theorem Makes.of_resource?_ne {p : Program} (control : m.control = .eval p)
    (hp : p.resource? ≠ some id) : Makes id m [] := by
  refine .none fun k => ?_
  rintro ⟨⟨place, key, compute, hget, hplace, -⟩, -⟩
  cases control.symm.trans hget
  exact hp (congrArg some hplace)

/-! ### Proper use -/

theorem copy_of_isPlain {v : Value} (hv : v.isPlain = true) (stack : List Frame) (s : Session) :
    copy v stack s = ⟨.give v, stack, s⟩ := by
  cases v with
  | list | dict | object => cases hv
  | _ => rfl

/-- Whether a computation of the stable cache is in progress. -/
def busy (id : Nat) (m : Machine) : Bool := m.stack.any (Frame.computes id)

/-- Whether the stable cache is used like one that could as well be a value cache: it is asked by
the calls that both kinds have, and not while it computes, and it computes values that are their own
copies. -/
def isProper (id : Nat) (m : Machine) : Bool :=
  match m.control, m.stack with
  | .eval p, _ => p.resource? ≠ some id || p.isCall && !m.busy id
  | .give v, frame :: _ => !frame.computes id || v.isPlain
  | _, _ => true

theorem isCall_of_isProper {p : Program} (proper : m.isProper id = true)
    (control : m.control = .eval p) (hp : p.resource? = some id) :
    p.isCall = true ∧ m.busy id = false := by
  have h : (decide (p.resource? ≠ some id) || p.isCall && !m.busy id) = true := by
    rw [← proper, isProper, control]
  rcases (Bool.or_eq_true ..).mp h with hne | hcall
  · exact absurd hp (of_decide_eq_true hne)
  · rwa [Bool.and_eq_true, Bool.not_eq_true'] at hcall

theorem isPlain_of_isProper {v : Value} {frame : Frame} {rest : List Frame}
    (proper : m.isProper id = true) (control : m.control = .give v)
    (hstack : m.stack = frame :: rest) (hframe : frame.computes id = true) :
    v.isPlain = true := by
  have h : (!frame.computes id || v.isPlain) = true := by
    rw [← proper, isProper, control, hstack]
  rwa [hframe, Bool.not_true, Bool.false_or] at h

/-- What is true of a stable cache that is used properly. -/
structure Steady (id : Nat) (c : StableCache) (stack : List Frame) (s : Session) : Prop where
  found : s.resources[id]? = some (.stable c)
  views : ∀ name v, s.views.get? name = some v → v.resource ≠ id
  free : c.guard.isBorrowed = false
  plain : ∀ k v, c.slots.get? k = some v → v.isPlain = true
  marks : ∀ k, c.pending.get? k ≠ none → ∃ key, .computing id key k ∈ stack
  absent : ∀ key k, .computing id key k ∈ stack → c.slots.get? k = none
  single : stack.countP (Frame.computes id) ≤ 1
  frames : ∀ frame ∈ stack, frame.resource? = some id → frame.computes id = true

namespace Steady

/-- What the cache is replaced by is in its place. -/
theorem found_set (h : Steady id c stack s) (r : Resource) :
    (s.setResource id r).resources[id]? = some r :=
  Array.getElem?_setIfInBounds_self_of_lt (Array.getElem?_eq_some_iff.mp h.found).1

theorem unmarked (h : Steady id c m.stack m.session) (idle : m.busy id = false) (k : Key) :
    c.pending.get? k = none := by
  by_contra hk
  obtain ⟨key, hkey⟩ := h.marks k hk
  exact List.any_eq_false.mp idle _ hkey (Frame.computes_computing ..)

/-- A hit leaves the cache steady. -/
theorem hit (h : Steady id c stack s) :
    Steady id { c with hits := c.hits + 1 } stack (s.setStable id { c with hits := c.hits + 1 }) :=
  ⟨h.found_set _, h.views, h.free, h.plain, h.marks, h.absent,
    h.single, h.frames⟩

/-- So does the start of a computation. -/
theorem miss (h : Steady id c m.stack m.session) (idle : m.busy id = false) {k : Key}
    (hnone : c.slots.get? k = none) (thread : Thread) (shown : Spelled) (e : Event) :
    Steady id { c with pending := c.pending.insert k thread } (.computing id shown k :: m.stack)
      ((m.session.setStable id { c with pending := c.pending.insert k thread }).log e) := by
  refine ⟨h.found_set _, h.views, h.free, h.plain, ?_, ?_, ?_, ?_⟩
  · intro k' hk'
    by_cases hkk : k' = k
    · exact ⟨shown, hkk ▸ List.mem_cons_self⟩
    · obtain ⟨key, hkey⟩ := h.marks k' (by rwa [Table.get?_insert, if_neg hkk] at hk')
      exact ⟨key, List.mem_cons_of_mem _ hkey⟩
  · intro key k' hmem
    rcases List.mem_cons.mp hmem with heq | hmem
    · cases heq
      exact hnone
    · exact h.absent key k' hmem
  · have hzero : m.stack.countP (Frame.computes id) = 0 :=
      List.countP_eq_zero.mpr (List.any_eq_false.mp idle)
    rw [List.countP_cons, hzero]
    split <;> omega
  · intro frame hmem hid
    rcases List.mem_cons.mp hmem with rfl | hmem
    · exact Frame.computes_computing ..
    · exact h.frames frame hmem hid

section

variable {shown : Spelled} {k : Key} {rest : List Frame}

/-- When the computation ends, none is left. -/
theorem idle_rest (h : Steady id c (.computing id shown k :: rest) s) :
    rest.any (Frame.computes id) = false := by
  have hsingle := h.single
  rw [List.countP_cons_of_pos (Frame.computes_computing ..)] at hsingle
  exact List.any_eq_false.mpr (List.countP_eq_zero.mp (by omega))

/-- The marks that are left are those of frames that are left. -/
theorem marks_rest (h : Steady id c (.computing id shown k :: rest) s) {k' : Key}
    (hk' : (c.pending.erase k).get? k' ≠ none) : ∃ key, .computing id key k' ∈ rest := by
  rw [Table.get?_erase] at hk'
  split at hk'
  · exact absurd rfl hk'
  · rename_i hne
    obtain ⟨key, hkey⟩ := h.marks k' hk'
    rcases List.mem_cons.mp hkey with heq | hmem
    · cases heq
      exact absurd rfl hne
    · exact ⟨key, hmem⟩

theorem not_mem_rest (h : Steady id c (.computing id shown k :: rest) s) (key : Spelled)
    (k' : Key) : .computing id key k' ∉ rest := fun hmem =>
  List.any_eq_false.mp h.idle_rest _ hmem (Frame.computes_computing ..)

theorem frames_rest (h : Steady id c (.computing id shown k :: rest) s) (frame : Frame)
    (hframe : frame ∈ rest) (hid : frame.resource? = some id) : frame.computes id = true :=
  h.frames frame (List.mem_cons_of_mem _ hframe) hid

theorem single_rest (h : Steady id c (.computing id shown k :: rest) s) :
    rest.countP (Frame.computes id) ≤ 1 :=
  (List.sublist_cons_self ..).countP_le.trans h.single

/-- A deposit leaves the cache steady. -/
theorem deposit (h : Steady id c (.computing id shown k :: rest) s) {v : Value}
    (hv : v.isPlain = true) :
    Steady id (c.deposit k v) rest (s.setStable id (c.deposit k v)) := by
  refine ⟨h.found_set _, h.views, h.free, ?_,
    fun _ hk => h.marks_rest hk, fun key k' hmem => absurd hmem (h.not_mem_rest key k'),
    h.single_rest, h.frames_rest⟩
  intro k' w hw
  rw [StableCache.get?_slots_deposit] at hw
  split at hw
  · rw [h.absent shown k List.mem_cons_self] at hw
    cases hw
    exact hv
  · exact h.plain k' w hw

/-- So does the end of a computation that has failed. -/
theorem withdraw (h : Steady id c (.computing id shown k :: rest) s) :
    Steady id (c.withdraw k) rest (s.setStable id (c.withdraw k)) :=
  ⟨h.found_set _, h.views, h.free, h.plain,
    fun _ hk => h.marks_rest hk, fun key k' hmem => absurd hmem (h.not_mem_rest key k'),
    h.single_rest, h.frames_rest⟩

end

end Steady

/-! ### The two machines -/

/-- The machines are at the same point; the stable cache `c` of the first is a value cache in the
second. -/
structure Level (id : Nat) (c : StableCache) (m n : Machine) : Prop where
  control : n.control = m.control
  stack : n.stack = m.stack.flatMap (Frame.twin id)
  session : n.session = m.session.setValue id (c.twin (m.busy id))

/-- The first machine has handed over a value or a fault already, and the second still holds a view:
it is about to leave it, or to copy the value first. -/
structure Behind (id : Nat) (c : StableCache) (m n : Machine) : Prop where
  idle : m.busy id = false
  outcome : m.control.isOutcome = true
  control : n.control = m.control ∨
    ∃ v, v.isPlain = true ∧ m.control = .give v ∧ n.control = .eval (.copy v)
  held : ∃ mode, n.stack = .release id mode :: m.stack.flatMap (Frame.twin id) ∧
    n.session = m.session.setValue id ((c.twin false).acquire mode)

/-- What the machines are after a step of the first. -/
def Follows (id : Nat) (m n : Machine) : Prop :=
  ∃ c, Steady id c m.stack m.session ∧ (Level id c m n ∨ Behind id c m n)

theorem Level.beside (hl : Level id c m n) (h : Steady id c m.stack m.session) :
    Beside id (.stable c) (.value (c.twin (m.busy id))) m.session n.session :=
  ⟨h.found, hl.session, h.views⟩

theorem Level.found (hl : Level id c m n) (h : Steady id c m.stack m.session) :
    n.session.resources[id]? = some (.value (c.twin (m.busy id))) := by
  rw [hl.session]
  exact h.found_set _

/-! ### Steps that are not about the cache -/

theorem any_computes_append {top : List Frame}
    (htop : ∀ frame ∈ top, frame.resource? ≠ some id) (stack : List Frame) :
    (top ++ stack).any (Frame.computes id) = stack.any (Frame.computes id) := by
  have hnone : top.any (Frame.computes id) = false := by
    rw [List.any_eq_false]
    exact fun frame hframe => Frame.not_computes_of_resource?_ne (htop frame hframe)
  rw [List.any_append, hnone, Bool.false_or]

theorem flatMap_twin_append {top : List Frame}
    (htop : ∀ frame ∈ top, frame.resource? ≠ some id) (stack : List Frame) :
    (top ++ stack).flatMap (Frame.twin id) = top ++ stack.flatMap (Frame.twin id) := by
  induction top with
  | nil => rfl
  | cons frame top ih =>
    rw [List.forall_mem_cons] at htop
    rw [List.cons_append, List.flatMap_cons, Frame.twin_of_resource?_ne htop.1, ih htop.2]
    rfl

/-- What is not about the cache leaves it as it is, and the machines level. -/
theorem Steady.parallel {base : List Frame} (h : Steady id c m.stack m.session)
    (hsuffix : base <:+ m.stack)
    (kept : ∀ frame ∈ m.stack, frame.resource? = some id → frame ∈ base)
    (hp : Parallel id (.stable c) (.value (c.twin (m.busy id))) base
      (base.flatMap (Frame.twin id)) m' n') :
    Follows id m' n' := by
  obtain ⟨top, hstack, hstack', htop⟩ := hp.stack
  obtain ⟨found, hsession, views⟩ := hp.session
  have htopCount : top.countP (Frame.computes id) = 0 :=
    List.countP_eq_zero.mpr fun frame hframe =>
      Frame.not_computes_of_resource?_ne (htop frame hframe)
  have hbusy : m'.busy id = m.busy id := by
    rw [busy, hstack, any_computes_append htop, busy, Bool.eq_iff_iff, List.any_eq_true,
      List.any_eq_true]
    constructor
    · rintro ⟨frame, hframe, hcomputes⟩
      exact ⟨frame, hsuffix.subset hframe, hcomputes⟩
    · rintro ⟨frame, hframe, hcomputes⟩
      refine ⟨frame, kept frame hframe ?_, hcomputes⟩
      by_contra hne
      exact Frame.not_computes_of_resource?_ne hne hcomputes
  refine ⟨c, ⟨found, views, h.free, h.plain, fun k hk => ?_, fun key k hmem => ?_, ?_, ?_⟩,
    .inl ⟨hp.control, ?_, ?_⟩⟩
  · obtain ⟨key, hkey⟩ := h.marks k hk
    exact ⟨key, hstack ▸ List.mem_append_right _ (kept _ hkey rfl)⟩
  · rw [hstack] at hmem
    rcases List.mem_append.mp hmem with hmem | hmem
    · exact absurd rfl (htop _ hmem)
    · exact h.absent key k (hsuffix.subset hmem)
  · rw [hstack, List.countP_append, htopCount, Nat.zero_add]
    exact hsuffix.sublist.countP_le.trans h.single
  · intro frame hframe hid
    rw [hstack] at hframe
    rcases List.mem_append.mp hframe with hmem | hmem
    · exact absurd hid (htop _ hmem)
    · exact h.frames frame (hsuffix.subset hmem) hid
  · rw [hstack, hstack', flatMap_twin_append htop]
  · rw [hsession, hbusy]
    rfl

namespace Level

/-- What is put on top of the frames as they are, and is not about the cache, leaves the machines
level. -/
theorem parallel (hl : Level id c m n) (h : Steady id c m.stack m.session)
    (hp : Parallel id (.stable c) (.value (c.twin (m.busy id))) m.stack n.stack m' n') :
    Follows id m' n' := by
  rw [hl.stack] at hp
  exact h.parallel List.suffix_rfl (fun _ hframe _ => hframe) hp

theorem follows_refuse (hl : Level id c m n) (h : Steady id c m.stack m.session) (f : Fault) :
    Follows id (refuse f m.stack m.session) (refuse f n.stack n.session) :=
  hl.parallel h (.refuse (hl.beside h) f)

theorem step_eval (hl : Level id c m n) (h : Steady id c m.stack m.session) {p : Program}
    (control : m.control = .eval p) (hp : p.resource? ≠ some id) : Follows id m.step n.step := by
  have hm : m.step = begin p m.stack m.session := by rw [step, control]
  have hn : n.step = begin p n.stack n.session := by rw [step, hl.control, control]
  rw [hm, hn]
  exact hl.parallel h (parallel_begin (hl.beside h) hp)

theorem step_outcome (hl : Level id c m n) (h : Steady id c m.stack m.session)
    {frame : Frame} {rest : List Frame} (hstack : m.stack = frame :: rest)
    (outcome : m.control.isOutcome = true) (hframe : frame.resource? ≠ some id) :
    Follows id m.step n.step := by
  have hsuffix : rest <:+ m.stack := hstack ▸ List.suffix_cons ..
  have hkept : ∀ f ∈ m.stack, f.resource? = some id → f ∈ rest := by
    intro f hf hid
    rw [hstack] at hf
    rcases List.mem_cons.mp hf with rfl | hf
    · exact absurd hid hframe
    · exact hf
  have hstack' : n.stack = frame :: rest.flatMap (Frame.twin id) := by
    rw [hl.stack, hstack, List.flatMap_cons, Frame.twin_of_resource?_ne hframe]
    rfl
  have hcontrol := hl.control
  cases hc : m.control with
  | eval p =>
    rw [hc] at outcome
    cases outcome
  | give v =>
    have hm : m.step = resume v frame rest m.session := by rw [step, hc, hstack]
    have hn : n.step = resume v frame (rest.flatMap (Frame.twin id)) n.session := by
      rw [step, hcontrol, hc, hstack']
    rw [hm, hn]
    exact h.parallel hsuffix hkept (parallel_resume (hl.beside h) hframe v)
  | raise f =>
    have hm : m.step = unwind f frame rest m.session := by rw [step, hc, hstack]
    have hn : n.step = unwind f frame (rest.flatMap (Frame.twin id)) n.session := by
      rw [step, hcontrol, hc, hstack']
    rw [hm, hn]
    exact h.parallel hsuffix hkept (parallel_unwind (hl.beside h) hframe f)

/-! ### Calls -/

/-- A request to a cache that does not compute. -/
theorem step_get (hl : Level id c m n) (h : Steady id c m.stack m.session)
    (idle : m.busy id = false) {place : Place} {key : Value} {compute : Value → Program}
    (control : m.control = .eval (.get place key compute)) (hplace : place.id = id) :
    Follows id m.step n.step ∧ ∃ made, Makes id m made ∧ Makes id n made := by
  subst hplace
  have found' := hl.found h
  have hsession := hl.session
  rw [idle] at found' hsession
  have control' : n.control = .eval (.get place key compute) := hl.control.trans control
  have hm := step_eq_getStable control h.found
  have hn := step_eq_getValue control' found'
  have hrequest : n.session.request key = m.session.request key := by rw [hsession]; rfl
  rw [getStable] at hm
  rw [getValue, hrequest] at hn
  rcases StableCache.start_twin h.free (h.unmarked idle) m.session.thread (m.session.request key)
    with ⟨f, hs, ht⟩ | ⟨k, v, hv, hs, ht⟩ | ⟨shown, k, hnone, hs, ht⟩
  · rw [hs] at hm
    rw [ht] at hn
    dsimp only at hm hn
    refine ⟨?_, [], .of_step_isOutcome ?_, .of_step_isOutcome ?_⟩
    · rw [hm, hn]
      exact hl.follows_refuse h f
    · rw [hm]
      rfl
    · rw [hn]
      rfl
  · rw [hs] at hm
    rw [ht] at hn
    dsimp only at hm hn
    refine ⟨?_, [], .of_step_isOutcome (by rw [hm]; rfl), .none fun k' => ?_⟩
    · rw [hm, hn]
      refine ⟨_, h.hit, .inr ⟨idle, rfl, .inr ⟨v, h.plain k v hv, rfl, rfl⟩, .write, ?_, ?_⟩⟩
      · exact congrArg _ hl.stack
      · dsimp only
        rw [hsession]
        exact (Session.setResource_setResource ..).trans (Session.setResource_setResource ..).symm
    · rintro ⟨-, frame, rest, hstack, hframe, -⟩
      rw [hn] at hstack
      cases hstack
      cases hframe
  · rw [hs] at hm
    rw [ht] at hn
    dsimp only at hm hn
    have hindex := (StableCache.start_eq_miss_iff.mp hs).2.1
    have hkey : key.key = .ok k := Request.index_eq_ok_iff.mp hindex
    refine ⟨?_, [⟨key, compute⟩], .call (k := k) control ?_, .call (k := k) control' ?_⟩
    · rw [hm, hn]
      refine ⟨_, h.miss idle hnone _ shown _, .inl ⟨rfl, ?_, ?_⟩⟩
      · dsimp only
        rw [List.flatMap_cons, Frame.twin_computing, hl.stack]
        rfl
      · have hbusy : (Frame.computing place.id shown k :: m.stack).any (Frame.computes place.id) =
            true := by
          rw [List.any_cons, Frame.computes_computing, Bool.true_or]
        rw [busy, hbusy, hsession]
        exact congrArg (Session.log · _)
          ((Session.setResource_setResource ..).trans (Session.setResource_setResource ..).symm)
    · refine ⟨⟨place, key, compute, control, rfl, hkey, ?_⟩,
        .computing place.id shown k, m.stack, ?_, rfl, List.suffix_rfl⟩
      · rw [hm]
      · rw [hm]
    · refine ⟨⟨place, key, compute, control', rfl, hkey, ?_⟩,
        .storing place.id k, .release place.id .write :: n.stack, ?_, rfl, List.suffix_cons ..⟩
      · rw [hn]
      · rw [hn]

theorem step_peek (hl : Level id c m n) (h : Steady id c m.stack m.session)
    (idle : m.busy id = false) {place : Place} {key : Value}
    (control : m.control = .eval (.peek place key)) (hplace : place.id = id) :
    Follows id m.step n.step := by
  subst hplace
  have found' := hl.found h
  have hsession := hl.session
  rw [idle] at found' hsession
  have hm : m.step = Machine.peek place.id key m.stack m.session := by rw [step, control]; rfl
  have hn : n.step = Machine.peek place.id key n.stack n.session := by
    rw [step, hl.control, control]
    rfl
  have hrequest : n.session.request key = m.session.request key := by rw [hsession]; rfl
  rw [Machine.peek, h.found] at hm
  rw [Machine.peek, found', hrequest] at hn
  dsimp only at hm hn
  rcases StableCache.peek_twin h.free (m.session.request key) with
    ⟨f, hs, ht⟩ | ⟨k, v, hv, hs, ht⟩
  · rw [hs] at hm
    rw [ht] at hn
    rw [hm, hn]
    exact hl.follows_refuse h f
  · rw [hs] at hm
    rw [ht] at hn
    rw [hm, hn]
    refine ⟨c, h, .inr ⟨idle, rfl, .inr ⟨v, h.plain k v hv, rfl, rfl⟩, .read, ?_, ?_⟩⟩
    · exact congrArg _ hl.stack
    · dsimp only
      rw [hsession]
      exact Session.setResource_setResource ..

/-- A membership test, the size, and the counts. -/
theorem step_inspect (hl : Level id c m n) (h : Steady id c m.stack m.session)
    (idle : m.busy id = false) {i : Inspection}
    (control : m.control = .eval (.perform (.inspect i)))
    (call : (Program.perform (.inspect i)).isCall = true) (hplace : i.place.id = id) :
    Follows id m.step n.step := by
  have hbeside := hl.beside h
  have found' := hl.found h
  rw [idle] at hbeside found'
  have hm : m.step = reply m.stack (m.session.inspect i) := step_perform control
  have hn : n.step = reply n.stack (n.session.inspect i) :=
    step_perform (hl.control.trans control)
  have hs : m.session.resource id = .ok (.stable c) := by rw [Session.resource, h.found]
  have ht : n.session.resource id = .ok (.value (c.twin false)) := by
    rw [Session.resource, found']
  have hrequest (key : Value) : n.session.request key = m.session.request key := by
    rw [hl.session]
    rfl
  have hreplies : Beside.Replies id (.stable c) (.value (c.twin false)) (m.session.inspect i)
      (n.session.inspect i) := by
    cases i with
    | contains p key =>
      obtain rfl : p.id = id := hplace
      refine ⟨?_, hbeside⟩
      simp only [Session.inspect, hs, ht, hrequest, ok_bind, Resource.contains,
        StableCache.contains_twin h.free]
    | size p =>
      obtain rfl : p.id = id := hplace
      refine ⟨?_, hbeside⟩
      simp only [Session.inspect, hs, ht, hrequest, ok_bind, Resource.size,
        StableCache.size_twin h.free]
    | stats p =>
      obtain rfl : p.id = id := hplace
      have hmemory : n.session.memory = m.session.memory := by rw [hl.session]; rfl
      simp only [Session.inspect, Session.stats, hs, ht, ok_bind, Resource.stats, hmemory]
      exact ⟨rfl, hbeside.memory _⟩
    | _ => cases call
  rw [hm, hn]
  refine hl.parallel h ?_
  rw [idle]
  exact .reply hreplies

/-- The end of a computation. -/
theorem step_computing (hl : Level id c m n) (h : Steady id c m.stack m.session)
    (proper : m.isProper id = true) {shown : Spelled} {k : Key} {rest : List Frame}
    (hstack : m.stack = .computing id shown k :: rest) (outcome : m.control.isOutcome = true) :
    Follows id m.step n.step := by
  have hbusy : m.busy id = true := by
    rw [busy, hstack, List.any_cons, Frame.computes_computing, Bool.true_or]
  have found' := hl.found h
  have hsession := hl.session
  rw [hbusy] at found' hsession
  have hstack' : n.stack =
      .storing id k :: .release id .write :: rest.flatMap (Frame.twin id) := by
    rw [hl.stack, hstack, List.flatMap_cons, Frame.twin_computing]
    rfl
  have hcontrol := hl.control
  have hsteady := h
  rw [hstack] at hsteady
  cases control : m.control with
  | eval p =>
    rw [control] at outcome
    cases outcome
  | give v =>
    have hv : v.isPlain = true :=
      isPlain_of_isProper proper control hstack (Frame.computes_computing ..)
    have habsent := hsteady.absent shown k List.mem_cons_self
    have hvalue : ((c.deposit k v).slots.get? k).getD v = v := by
      rw [StableCache.get?_slots_deposit, if_pos rfl, habsent]
      rfl
    have hm : m.step = ⟨.give v, rest, m.session.setStable id (c.deposit k v)⟩ := by
      rw [step, control, hstack]
      show finish id shown k (.ok v) rest m.session = _
      rw [finish, h.found]
      dsimp only
      rw [StableCache.finish_ok_of_free h.free, hvalue]
      rfl
    have hn : n.step = ⟨.eval (.copy v), .release id .write :: rest.flatMap (Frame.twin id),
        n.session.setValue id ((c.twin true).deposit k v)⟩ := by
      rw [step, hcontrol, control, hstack']
      show Machine.deposit id k v _ n.session = _
      rw [Machine.deposit, found']
    rw [hm, hn]
    refine ⟨_, hsteady.deposit hv,
      .inr ⟨hsteady.idle_rest, rfl, .inr ⟨v, hv, rfl, rfl⟩, .write, rfl, ?_⟩⟩
    dsimp only
    rw [hsession, StableCache.deposit_twin habsent]
    exact (Session.setResource_setResource ..).trans (Session.setResource_setResource ..).symm
  | raise f =>
    have hm : m.step = ⟨.raise f, rest, m.session.setStable id (c.withdraw k)⟩ := by
      rw [step, control, hstack]
      show finish id shown k (.error f) rest m.session = _
      rw [finish, h.found]
      dsimp only
      rw [StableCache.finish_error_of_free h.free]
      rfl
    have hn : n.step = ⟨.raise f, .release id .write :: rest.flatMap (Frame.twin id),
        n.session⟩ := by
      rw [step, hcontrol, control, hstack']
      rfl
    rw [hm, hn]
    refine ⟨_, hsteady.withdraw, .inr ⟨hsteady.idle_rest, rfl, .inl rfl, .write, rfl, ?_⟩⟩
    rw [hsession]
    exact (Session.setResource_setResource ..).symm

/-- While the stable cache is used properly, each of its steps is followed, and computations are
called alike. -/
theorem advance (hl : Level id c m n) (h : Steady id c m.stack m.session) (hm : m.outcome? = none)
    (proper : m.isProper id = true) :
    Follows id m.step n.step ∧ ∃ made, Makes id m made ∧ Makes id n made := by
  by_cases outcome : m.control.isOutcome = true
  · have outcome' : n.control.isOutcome = true := hl.control ▸ outcome
    refine ⟨?_, [], .of_isOutcome outcome, .of_isOutcome outcome'⟩
    cases hstack : m.stack with
    | nil =>
      have hend := (outcome?_isSome_iff m).mpr ⟨hstack, outcome⟩
      rw [hm] at hend
      cases hend
    | cons frame rest =>
      by_cases hframe : frame.resource? = some id
      · have hcomputes := h.frames frame (hstack ▸ List.mem_cons_self) hframe
        cases frame with
        | computing i shown k =>
          obtain rfl : i = id := of_decide_eq_true hcomputes
          exact hl.step_computing h proper hstack outcome
        | _ => cases hcomputes
      · exact hl.step_outcome h hstack outcome hframe
  · cases control : m.control with
    | give v => exact absurd (by rw [control]; rfl) outcome
    | raise f => exact absurd (by rw [control]; rfl) outcome
    | eval p =>
      have control' : n.control = .eval p := hl.control.trans control
      by_cases hp : p.resource? = some id
      · obtain ⟨call, idle⟩ := isCall_of_isProper proper control hp
        cases p with
        | get place key compute =>
          exact hl.step_get h idle control (Option.some.inj hp)
        | peek place key =>
          refine ⟨hl.step_peek h idle control (Option.some.inj hp), [], .none ?_, .none ?_⟩
          · exact fun k => not_starts_of_ne control (fun _ _ _ => nofun) _
          · exact fun k => not_starts_of_ne control' (fun _ _ _ => nofun) _
        | perform command =>
          cases command with
          | inspect i =>
            have hplace : i.place.id = id := Option.some.inj hp
            refine ⟨hl.step_inspect h idle control call hplace, [], .none ?_, .none ?_⟩
            · exact fun k => not_starts_of_ne control (fun _ _ _ => nofun) _
            · exact fun k => not_starts_of_ne control' (fun _ _ _ => nofun) _
          | _ => cases call
        | _ => cases call
      · exact ⟨hl.step_eval h control hp, [], .of_resource?_ne control hp,
          .of_resource?_ne control' hp⟩

end Level

namespace Behind

theorem outcome?_eq_none (hb : Behind id c m n) : n.outcome? = none := by
  obtain ⟨mode, hstack, -⟩ := hb.held
  exact outcome?_eq_none_of_stack hstack

theorem silent (hb : Behind id c m n) : Makes id n [] := by
  rcases hb.control with hcontrol | ⟨v, -, -, hcontrol⟩
  · exact .of_isOutcome (hcontrol ▸ hb.outcome)
  · exact .of_resource?_ne hcontrol nofun

/-- When it has left its view, the second machine has caught up. -/
theorem leave (hb : Behind id c m n) (h : Steady id c m.stack m.session)
    (hcontrol : n.control = m.control) : Level id c m n.step := by
  obtain ⟨mode, hstack, hsession⟩ := hb.held
  have found' : n.session.resources[id]? = some (.value ((c.twin false).acquire mode)) := by
    rw [hsession]
    exact h.found_set _
  rw [step_release hstack (hcontrol ▸ hb.outcome)]
  refine ⟨hcontrol, rfl, ?_⟩
  rw [hb.idle]
  dsimp only
  rw [Session.release, found']
  dsimp only
  rw [StableCache.release_twin h.free, hsession]
  exact Session.setResource_setResource ..

/-- The second machine copies the value, or catches up. -/
theorem advance (hb : Behind id c m n) (h : Steady id c m.stack m.session) :
    Level id c m n.step ∨ Behind id c m n.step ∧ n.step.control = m.control := by
  rcases hb.control with hcontrol | ⟨v, hv, hgive, hcontrol⟩
  · exact .inl (hb.leave h hcontrol)
  · have hn : n.step = ⟨.give v, n.stack, n.session⟩ := by
      rw [step, hcontrol]
      exact copy_of_isPlain hv n.stack n.session
    rw [hn]
    exact .inr ⟨⟨hb.idle, hb.outcome, .inl hgive.symm, hb.held⟩, hgive.symm⟩

end Behind

end Machine

end CheckedMemo
