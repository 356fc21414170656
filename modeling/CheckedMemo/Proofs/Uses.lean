import CheckedMemo.Proofs.Paths
import CheckedMemo.Proofs.ThreadCaches

/-!
# Uses of a per-thread cache

A use is a program that populates, retrieves and tests keys of a per-thread cache, with computations
that may use the cache again; whatever else it does has nothing to do with the cache.  What it can
come to is said without a machine, by the cache of its thread alone (`Use.Comes`), and a machine
that runs it comes to one of these (`Machine.Using.comesToUse`).
-/

namespace CheckedMemo

/-! ### Requests outside of a session -/

/-- The request that is made with a key in an empty memory. -/
def Value.plainRequest (key : Value) : Request := ⟨key, .mk fun _ => Memory.text? {} key⟩

theorem Session.request_eq {s : Session} {key : Value} {k : Key} (h : key.key = .ok k) :
    s.request key = key.plainRequest := by
  rw [request, Value.plainRequest]
  exact congrArg (fun text => Request.mk key (.mk fun _ => text)) (s.memory.text?_congr {} h)

namespace StableCache

variable {c : StableCache}

/-! While no view is active, a cache answers requests with a key alike in every session. -/

theorem start_request (free : c.guard.isBorrowed = false) (t : Thread) (s : Session) (key : Value) :
    c.start t (s.request key) = c.start t key.plainRequest := by
  cases h : key.key with
  | ok k => rw [Session.request_eq h]
  | error u =>
    have hread := Guard.obstacle?_of_not_isBorrowed free .read
    rw [start_of_unhashable (r := s.request key) hread h,
      start_of_unhashable (r := key.plainRequest) hread h]

theorem contains_request (free : c.guard.isBorrowed = false) (s : Session) (key : Value) :
    c.contains (s.request key) = c.contains key.plainRequest := by
  cases h : key.key with
  | ok k => rw [Session.request_eq h]
  | error u =>
    have hread := Guard.obstacle?_of_not_isBorrowed free .read
    rw [contains, contains, find_of_unhashable (r := s.request key) hread h,
      find_of_unhashable (r := key.plainRequest) hread h]

theorem retrieve_request (free : c.guard.isBorrowed = false) (hint : Option String) (s : Session)
    (key : Value) : c.retrieve hint (s.request key) = c.retrieve hint key.plainRequest := by
  cases h : key.key with
  | ok k => rw [Session.request_eq h]
  | error u =>
    have hread := Guard.obstacle?_of_not_isBorrowed free .read
    rw [retrieve, retrieve, contains, contains, find_of_unhashable (r := s.request key) hread h,
      find_of_unhashable (r := key.plainRequest) hread h]
    rfl

end StableCache

/-! ### Targets -/

namespace Session

/-- The per-thread cache that a target stands for, if it stands for one. -/
def confinedAt (s : Session) : Target → Option Nat
  | .named name =>
    match s.names.get? name with
    | some (.confined id) => some id
    | some (.override id) => s.overrides[id]?.map (·.artifacts)
    | _ => none
  | .artifacts override => s.overrides[override]?.map (·.artifacts)
  | .common => some 0

theorem confinedAt_congr {s s' : Session} (names : s'.names = s.names)
    (overrides : s'.overrides = s.overrides) (target : Target) :
    s'.confinedAt target = s.confinedAt target := by
  cases target with
  | named name => rw [confinedAt, confinedAt, names, overrides]
  | artifacts override => rw [confinedAt, confinedAt, overrides]
  | common => rfl

theorem locate_eq_locateConfined {s : Session} {target : Target} {id : Nat}
    (h : s.confinedAt target = some id) : s.locate target = s.locateConfined id := by
  have hartifacts {override : Nat} (h : s.overrides[override]?.map (·.artifacts) = some id) :
      s.locateArtifacts override = s.locateConfined id := by
    obtain ⟨o, ho, rfl⟩ := Option.map_eq_some_iff.mp h
    rw [locateArtifacts, ho]
  cases target with
  | named name =>
    rw [confinedAt] at h
    rw [locate]
    split at h
    · rename_i hname
      cases h
      rw [hname]
    · rename_i hname
      rw [hname]
      exact hartifacts h
    · cases h
  | artifacts override => exact hartifacts h
  | common =>
    cases h
    rfl

end Session

/-! ### Uses -/

/-- Whether a program has one of some outcomes, wherever it is run, and nothing to do with the
per-thread cache with a number: it leaves the cache alone, and a target that stands for it. -/
def Program.ComesTo (target : Target) (id : Nat) (p : Program)
    (outcomes : Set (Except Fault Value)) : Prop :=
  ∀ m : Machine, m.Reachable → m.session.confinedAt target = some id → m.control = .eval p →
    ∃ m', Machine.Ends m.stack m m' ∧ (∃ r ∈ outcomes, m'.control = .ofOutcome r) ∧
      m'.session.confinedAt target = some id ∧
      m'.session.confinedCache id = m.session.confinedCache id

namespace Program

variable {target : Target} {id : Nat} {p : Program} {outcomes : Set (Except Fault Value)}

theorem comesTo_of_step (h : ∀ m : Machine, m.control = .eval p →
    (∃ r ∈ outcomes, m.step.control = .ofOutcome r) ∧ m.step.stack = m.stack ∧
      m.step.session.shared = m.session.shared ∧ m.step.session.registry = m.session.registry) :
    p.ComesTo target id outcomes := by
  intro m _ htarget control
  obtain ⟨⟨r, hr, hcontrol⟩, hstack, hshared, hregistry⟩ := h m control
  refine ⟨m.step, .step (Machine.not_ended_of_eval control) (.here hstack ?_), ⟨r, hr, hcontrol⟩,
    ?_, ?_⟩
  · rw [hcontrol, Machine.isOutcome_ofOutcome]
  · rw [Session.confinedAt_congr (congrArg Registry.names hregistry)
      (congrArg Registry.overrides hregistry), htarget]
  · rw [Session.confinedCache_congr hshared hregistry]

theorem comesTo_done (v : Value) : (done v).ComesTo target id {.ok v} := by
  refine comesTo_of_step fun m control => ?_
  rw [Machine.step, control]
  exact ⟨⟨_, rfl, rfl⟩, rfl, rfl, rfl⟩

theorem comesTo_fail (t : Thrown) : (fail t).ComesTo target id {.error (.thrown t)} := by
  refine comesTo_of_step fun m control => ?_
  rw [Machine.step, control]
  exact ⟨⟨_, rfl, rfl⟩, rfl, rfl, rfl⟩

/-- A step on memory has the outcomes that it may have in some memory. -/
theorem comesTo_memory (c : Memory.Command) :
    (perform (.memory c)).ComesTo target id
      (Set.range fun memory : Memory => (memory.run c).1) := by
  refine comesTo_of_step fun m control => ?_
  have hstep : m.step = Machine.reply m.stack (m.session.onMemory (·.run c)) :=
    Machine.step_perform control
  have hshared : (m.session.onMemory (·.run c)).2.shared = m.session.shared := rfl
  have hregistry : (m.session.onMemory (·.run c)).2.registry = m.session.registry := rfl
  have hmem : (m.session.onMemory (·.run c)).1 ∈
      Set.range fun memory : Memory => (memory.run c).1 := ⟨m.session.memory, rfl⟩
  rw [hstep]
  cases hr : m.session.onMemory (·.run c) with
  | mk r s =>
    rw [hr] at hshared hregistry hmem
    cases r with
    | ok v => exact ⟨⟨_, hmem, rfl⟩, rfl, hshared, hregistry⟩
    | error f => exact ⟨⟨_, hmem, rfl⟩, rfl, (Session.shared_report ..).trans hshared,
        (Session.registry_report ..).trans hregistry⟩

end Program

/-- A use of a per-thread cache. -/
inductive Use where
  /-- A program that has nothing to do with the cache, and its possible outcomes. -/
  | other (p : Program) (outcomes : Set (Except Fault Value))
  | bind (first : Use) (next : Value → Use)
  | attempt (body : Use) (kinds : List Kind) (handler : Fault → Use)
  | populate (key : Value) (compute : Value → Use)
  | retrieve (key : Value)
  | isPopulated (key : Value)

namespace Use

/-- The program of a use of the per-thread cache that a target stands for. -/
def program (target : Target) : Use → Program
  | .other p _ => p
  | .bind first next => .bind (first.program target) fun v => (next v).program target
  | .attempt body kinds handler =>
    .attempt (body.program target) kinds fun f => (handler f).program target
  | .populate key compute =>
    .reach target fun place => .populate place key fun v => (compute v).program target
  | .retrieve key => .reach target fun place => .retrieve place key
  | .isPopulated key => .reach target fun place => .contains place key

/-- Whether the programs in a use that have nothing to do with the cache come to what they are said
to. -/
def Sound (target : Target) (id : Nat) : Use → Prop
  | .other p outcomes => p.ComesTo target id outcomes
  | .bind first next => first.Sound target id ∧ ∀ v, (next v).Sound target id
  | .attempt body _ handler => body.Sound target id ∧ ∀ f, (handler f).Sound target id
  | .populate _ compute => ∀ v, (compute v).Sound target id
  | .retrieve _ | .isPopulated _ => True

/-- Whether a use on a thread may have the outcome `r.1` and make `r.2` of the cache of the thread;
`hint` is what to add to the message when a key was not populated. -/
inductive Comes (t : Thread) (hint : Option String) :
    Use → StableCache → Except Fault Value × StableCache → Prop where
  | other {p : Program} {outcomes : Set (Except Fault Value)} {c : StableCache}
    {r : Except Fault Value} (h : r ∈ outcomes) : Comes t hint (.other p outcomes) c (r, c)
  | bind {first : Use} {next : Value → Use} {c c' : StableCache} {v : Value}
    {r : Except Fault Value × StableCache} (hfirst : Comes t hint first c (.ok v, c'))
    (hnext : Comes t hint (next v) c' r) : Comes t hint (.bind first next) c r
  | stop {first : Use} {next : Value → Use} {c c' : StableCache} {f : Fault}
    (hfirst : Comes t hint first c (.error f, c')) :
    Comes t hint (.bind first next) c (.error f, c')
  | attempt {body : Use} {kinds : List Kind} {handler : Fault → Use} {c c' : StableCache}
    {v : Value} (hbody : Comes t hint body c (.ok v, c')) :
    Comes t hint (.attempt body kinds handler) c (.ok v, c')
  | handle {body : Use} {kinds : List Kind} {handler : Fault → Use} {c c' : StableCache} {f : Fault}
    {r : Except Fault Value × StableCache} (hbody : Comes t hint body c (.error f, c'))
    (hkind : kinds.any f.kind.isA = true) (hhandler : Comes t hint (handler f) c' r) :
    Comes t hint (.attempt body kinds handler) c r
  | pass {body : Use} {kinds : List Kind} {handler : Fault → Use} {c c' : StableCache} {f : Fault}
    (hbody : Comes t hint body c (.error f, c')) (hkind : kinds.any f.kind.isA = false) :
    Comes t hint (.attempt body kinds handler) c (.error f, c')
  | refused {key : Value} {compute : Value → Use} {c : StableCache} {f : Fault}
    (start : c.start t key.plainRequest = .error f) :
    Comes t hint (.populate key compute) c (.error f, c)
  | populated {key v : Value} {compute : Value → Use} {c c' : StableCache}
    (start : c.start t key.plainRequest = .ok (.hit v c')) :
    Comes t hint (.populate key compute) c (.ok .null, c')
  | populate {key : Value} {compute : Value → Use} {c c' c'' : StableCache} {shown : Spelled}
    {k : Key} {r : Except Fault Value} (start : c.start t key.plainRequest = .ok (.miss shown k c'))
    (hcompute : Comes t hint (compute key) c' (r, c'')) :
    Comes t hint (.populate key compute) c
      ((c''.finish shown k r).outcome.map fun _ => .null, (c''.finish shown k r).cache)
  | retrieve (key : Value) (c : StableCache) :
    Comes t hint (.retrieve key) c (c.retrieve hint key.plainRequest, c)
  | isPopulated (key : Value) (c : StableCache) :
    Comes t hint (.isPopulated key) c ((c.contains key.plainRequest).map .bool, c)

namespace Comes

variable {t : Thread} {hint : Option String} {u : Use} {c c' : StableCache} {key : Value}
  {compute : Value → Use} {r : Except Fault Value × StableCache}

theorem of_refused {f : Fault} (h : Comes t hint (.populate key compute) c r)
    (hstart : c.start t key.plainRequest = .error f) : r = (.error f, c) := by
  cases h with
  | refused start =>
    cases start.symm.trans hstart
    rfl
  | populated start | populate start => cases start.symm.trans hstart

theorem of_hit {v : Value} (h : Comes t hint (.populate key compute) c r)
    (hstart : c.start t key.plainRequest = .ok (.hit v c')) : r = (.ok .null, c') := by
  cases h with
  | populated start =>
    cases start.symm.trans hstart
    rfl
  | refused start | populate start => cases start.symm.trans hstart

theorem of_miss {shown : Spelled} {k : Key} (h : Comes t hint (.populate key compute) c r)
    (hstart : c.start t key.plainRequest = .ok (.miss shown k c')) :
    ∃ q, Comes t hint (compute key) c' q ∧
      r = ((q.2.finish shown k q.1).outcome.map fun _ => .null,
        (q.2.finish shown k q.1).cache) := by
  cases h with
  | populate start hcompute =>
    cases start.symm.trans hstart
    exact ⟨_, hcompute, rfl⟩
  | refused start | populated start => cases start.symm.trans hstart

/-- A use leaves no view of the cache. -/
theorem guard (h : Comes t hint u c r) : r.2.guard = c.guard := by
  induction h with
  | other | refused | retrieve | isPopulated => rfl
  | bind _ _ hfirst hnext => exact hnext.trans hfirst
  | handle _ _ _ hbody hhandler => exact hhandler.trans hbody
  | stop _ ih | attempt _ ih | pass _ _ ih => exact ih
  | populated start =>
    obtain ⟨-, -, rfl⟩ := StableCache.start_eq_hit_iff.mp start
    rfl
  | populate start _ ih =>
    obtain ⟨-, -, -, -, -, rfl⟩ := StableCache.start_eq_miss_iff.mp start
    exact (StableCache.guard_finish ..).trans ih

end Comes

end Use

/-! ### Sessions in which the cache of a thread changes -/

/-- Whether the only change to the per-thread cache behind a target is that the current thread has
`c` as its part of it. -/
structure Session.Turned (target : Target) (id : Nat) (c : StableCache) (s s' : Session) :
    Prop where
  thread : s'.thread = s.thread
  target : s'.confinedAt target = some id
  caches (t : Thread) :
    s'.confinedCache id t = if t = s.thread then some c else s.confinedCache id t

namespace Session.Turned

variable {target : Target} {id r : Nat} {c c' : StableCache} {s s' s'' : Session}

theorem cache (h : s.Turned target id c s') : s'.confinedCache id s'.thread = some c := by
  rw [h.thread, h.caches, if_pos rfl]

theorem trans (h : s.Turned target id c s') (h' : s'.Turned target id c' s'') :
    s.Turned target id c' s'' := by
  refine ⟨h'.thread.trans h.thread, h'.target, fun t => ?_⟩
  rw [h'.caches, h.thread]
  split
  · rfl
  · rename_i hne
    rw [h.caches, if_neg hne]

/-- Nothing changes. -/
theorem of_same (htarget : s.confinedAt target = some id)
    (hc : s.confinedCache id s.thread = some c) (thread : s'.thread = s.thread)
    (htarget' : s'.confinedAt target = s.confinedAt target)
    (caches : s'.confinedCache id = s.confinedCache id) : s.Turned target id c s' := by
  refine ⟨thread, htarget'.trans htarget, fun t => ?_⟩
  rw [caches]
  split
  · rename_i heq
    rw [heq, hc]
  · rfl

theorem of_shared (htarget : s.confinedAt target = some id)
    (hc : s.confinedCache id s.thread = some c) (shared : s'.shared = s.shared)
    (registry : s'.registry = s.registry) : s.Turned target id c s' :=
  .of_same htarget hc (congrArg Shared.thread shared)
    (confinedAt_congr (congrArg Registry.names registry) (congrArg Registry.overrides registry) _)
    (congrFun (confinedCache_congr shared registry) id)

/-- The cache at the part of the current thread is replaced. -/
theorem of_set (hs : s.Orderly) (htarget : s.confinedAt target = some id)
    (hpart : s.part id s.thread = some r) (shared : s'.shared = s.shared.set r (.stable c))
    (registry : s'.registry = s.registry) : s.Turned target id c s' := by
  refine ⟨congrArg Shared.thread shared, ?_, fun t => ?_⟩
  · rw [confinedAt_congr (congrArg Registry.names registry) (congrArg Registry.overrides registry),
      htarget]
  · rw [hs.confinedCache_set hpart shared registry]
    exact if_congr (and_iff_right rfl) rfl rfl

end Session.Turned

/-! ### Uses at work -/

namespace Machine

variable {m n : Machine} {base rest : List Frame} {target : Target} {id : Nat}
  {hint : Option String} {c c' : StableCache} {r : Except Fault Value × StableCache}
  {frame : Frame}

theorem registry_step_of_isOutcome (hc : m.control.isOutcome = true) :
    m.step.session.registry = m.session.registry := by
  obtain ⟨control, stack, s⟩ := m
  cases control with
  | eval p => cases hc
  | give v =>
    cases stack with
    | nil => rfl
    | cons frame rest => exact registry_resume ..
  | raise f =>
    cases stack with
    | nil => rfl
    | cons frame rest => exact registry_unwind ..

/-- The part that the current thread has, or would have, in the per-thread cache behind a target is
`c`, and no view of it is active. -/
structure Using (target : Target) (id : Nat) (hint : Option String) (c : StableCache)
    (m : Machine) : Prop where
  reachable : Reachable m
  target : m.session.confinedAt target = some id
  hint : ∃ cd, m.session.confined[id]? = some cd ∧ cd.hint = hint
  cache : m.session.confinedCache id m.session.thread = some c
  free : c.guard.isBorrowed = false

theorem Using.after (h : m.Using target id hint c) (hpath : Path (fun _ => True) base m n)
    (hb : base <:+ m.stack) (turned : m.session.Turned target id c' n.session)
    (guard : c'.guard = c.guard) : n.Using target id hint c' := by
  have hleads := hpath.leads hb
  obtain ⟨cd, found, hhint⟩ := h.hint
  obtain ⟨cd', found', -, hhint'⟩ := hleads.extends.confined found
  exact ⟨h.reachable.leads hleads, turned.target, ⟨cd', found', hhint'.trans hhint⟩, turned.cache,
    by rw [guard, h.free]⟩

/-- What runs at `m` comes to an outcome, and changes the cache in the part of the current thread
only. -/
def Yields (target : Target) (id : Nat) (r : Except Fault Value × StableCache) (m : Machine) :
    Prop :=
  ∃ m', Path (fun _ => True) m.stack m m' ∧ m'.control = .ofOutcome r.1 ∧ m'.stack = m.stack ∧
    m.session.Turned target id r.2 m'.session

/-- What runs at `m` comes to what a use may come to. -/
def ComesToUse (target : Target) (id : Nat) (hint : Option String) (u : Use) (c : StableCache)
    (m : Machine) : Prop :=
  ∃ r, u.Comes m.session.thread hint c r ∧ m.Yields target id r

theorem Yields.of_path (hpath : Path (fun _ => True) m.stack m n) (hs : n.stack = m.stack)
    (turned : m.session.Turned target id c n.session) (h : n.Yields target id r) :
    m.Yields target id r := by
  obtain ⟨m', hpath', control, stack, turned'⟩ := h
  rw [hs] at hpath' stack
  exact ⟨m', hpath.trans hpath', control, stack, turned.trans turned'⟩

/-- What yields an outcome on top of a frame hands it to the frame. -/
theorem Yields.onto (h : n.Yields target id r) (hs : n.stack = frame :: base) :
    ∃ m', Path (fun _ => True) base n m' ∧ m'.control = .ofOutcome r.1 ∧
      m'.stack = frame :: base ∧ n.session.Turned target id r.2 m'.session := by
  obtain ⟨m', hpath, control, stack, turned⟩ := h
  rw [hs] at hpath stack
  exact ⟨m', hpath.lower (List.suffix_cons ..) (hs ▸ List.suffix_rfl), control, stack, turned⟩

/-- One step that takes an outcome to a frame. -/
theorem path_resume {v : Value} (control : m.control = .give v) (stack : m.stack = frame :: rest) :
    Path (fun _ => True) rest m (resume v frame rest m.session) :=
  .resume (show frame :: rest <:+ m.stack from stack ▸ List.suffix_rfl) trivial
    (step_resume control stack)

theorem path_unwind {f : Fault} (control : m.control = .raise f) (stack : m.stack = frame :: rest) :
    Path (fun _ => True) rest m (unwind f frame rest m.session) :=
  .resume (show frame :: rest <:+ m.stack from stack ▸ List.suffix_rfl) trivial
    (step_unwind control stack)

/-- The per-thread cache behind a target is found, and the part of the current thread in it. -/
theorem Using.reach (h : m.Using target id hint c) {next : Place → Program}
    (control : m.control = .eval (.reach target next)) :
    ∃ place s, m.step = ⟨.eval (next place), m.stack, s⟩ ∧ place.hint = hint ∧
      s.part id s.thread = some place.id ∧ s.resources[place.id]? = some (.stable c) ∧
      m.session.Turned target id c s := by
  obtain ⟨cd, found, hhint⟩ := h.hint
  obtain ⟨place, s, hlocate, hplace, locates⟩ := h.reachable.orderly.exists_locates found
  obtain ⟨c', found', hc'⟩ := locates.exists_cache
  obtain rfl : c = c' := Option.some.inj (h.cache.symm.trans hc')
  have hcaches : s.confinedCache id = m.session.confinedCache id :=
    funext fun t => locates.caches id t
  have hpart := locates.part
  obtain ⟨resources, confined, hs⟩ := locates.rest
  have hthread : s.thread = m.session.thread := by rw [hs]
  refine ⟨place, s, ?_, hplace.trans hhint, hthread ▸ hpart, found',
    .of_same h.target h.cache hthread ?_ hcaches⟩
  · rw [step, control]
    dsimp only [begin]
    rw [Session.locate_eq_locateConfined h.target, hlocate]
  · rw [hs]
    exact Session.confinedAt_congr rfl rfl target

variable {place : Place} {key : Value}

/-- When the value of a key that is populated is there, nothing is given. -/
theorem path_populated (outcome : Except Fault Value) (control : m.control = .ofOutcome outcome)
    (stack : m.stack = .bind (fun _ => .done .null) :: base) :
    Path (fun _ => True) base m ⟨.ofOutcome (outcome.map fun _ => .null), base, m.session⟩ := by
  cases outcome with
  | ok v => exact (path_resume control stack).trans (Path.eval rfl trivial rfl)
  | error f => exact path_unwind control stack

/-- When the value of a key that is populated has been computed, the cache has the last word, and
nothing is given. -/
theorem Using.path_computing {outcome : Except Fault Value} {shown : Spelled} {k : Key} {r : Nat}
    (h : m.Using target id hint c) (control : m.control = .ofOutcome outcome)
    (stack : m.stack = .computing r shown k :: .bind (fun _ => .done .null) :: base)
    (hpart : m.session.part id m.session.thread = some r) :
    ∃ n, Path (fun _ => True) base m n ∧
      n.control = .ofOutcome ((c.finish shown k outcome).outcome.map fun _ => .null) ∧
      n.stack = base ∧ m.session.Turned target id (c.finish shown k outcome).cache n.session := by
  have found := h.cache
  rw [Session.confinedCache_of_part hpart, Session.stableAt_eq_some_iff] at found
  obtain ⟨hcontrol, hstack, hshared⟩ := step_computing control stack found
  have houtcome : m.control.isOutcome = true := by rw [control, isOutcome_ofOutcome]
  have hsuffix : .bind (fun _ => .done .null) :: base <:+ m.stack := stack ▸ List.suffix_cons ..
  have hfinish : Path (fun _ => True) base m m.step := .resume hsuffix trivial rfl
  refine ⟨_, hfinish.trans (path_populated _ hcontrol hstack), rfl, rfl, ?_⟩
  exact .of_set h.reachable.orderly h.target hpart hshared (registry_step_of_isOutcome houtcome)

/-- Populating a key of the part of the current thread comes to what the computation makes of it. -/
theorem Using.yields_populate {u : Value → Use} (h : m.Using target id hint c)
    (control : m.control = .eval (.populate place key fun v => (u v).program target))
    (hpart : m.session.part id m.session.thread = some place.id)
    (found : m.session.resources[place.id]? = some (.stable c))
    (hcompute : ∀ {n : Machine} {c : StableCache}, n.Using target id hint c →
      n.control = .eval ((u key).program target) → n.ComesToUse target id hint (u key) c) :
    m.ComesToUse target id hint (.populate key u) c := by
  let asking : Machine := ⟨.eval (.get place key fun v => (u v).program target),
    .bind (fun _ => .done .null) :: m.stack, m.session⟩
  have hasking : Path (fun _ => True) m.stack m asking := by
    refine Path.eval control trivial ?_
    rw [step, control]
    rfl
  have hstep : asking.step =
      getStable place.id c key (fun v => (u v).program target) asking.stack m.session :=
    step_eq_getStable rfl found
  rw [getStable, StableCache.start_request h.free] at hstep
  -- the request is refused, or the key has a value, or it is marked and computed
  cases hstart : c.start m.session.thread key.plainRequest with
  | error f =>
    rw [hstart] at hstep
    have hend := path_populated (m := refuse f asking.stack m.session) (.error f) rfl rfl
    exact ⟨_, .refused hstart, _, hasking.trans ((Path.eval rfl trivial hstep).trans hend), rfl,
      rfl, .of_shared h.target h.cache (Session.shared_report ..) (Session.registry_report ..)⟩
  | ok answer =>
    rw [hstart] at hstep
    cases answer with
    | hit v c' =>
      let answered : Machine := ⟨.give v, asking.stack, m.session.setStable place.id c'⟩
      have hend := path_populated (m := answered) (.ok v) rfl rfl
      exact ⟨_, .populated hstart, _, hasking.trans ((Path.eval rfl trivial hstep).trans hend), rfl,
        rfl, .of_set h.reachable.orderly h.target hpart rfl rfl⟩
    | miss shown k c' =>
      let started : Machine := ⟨.eval ((u key).program target),
        .computing place.id shown k :: asking.stack,
        (m.session.setStable place.id c').log (.cacheMiss c'.label shown)⟩
      have hstarted : Path (fun _ => True) m.stack m started :=
        hasking.trans (Path.eval rfl trivial hstep)
      have hturned : m.session.Turned target id c' started.session :=
        .of_set h.reachable.orderly h.target hpart rfl rfl
      have hguard : c'.guard = c.guard := by
        obtain ⟨-, -, -, -, -, rfl⟩ := StableCache.start_eq_miss_iff.mp hstart
        rfl
      have husing := h.after hstarted List.suffix_rfl hturned hguard
      obtain ⟨r, hcomes, hyields⟩ := hcompute husing rfl
      obtain ⟨n, hcomputed, hcontrol, hstack, hturned'⟩ := hyields.onto
        (rfl : started.stack = .computing place.id shown k :: asking.stack)
      have hcomputed' : Path (fun _ => True) m.stack started n :=
        hcomputed.lower (List.suffix_cons ..) (List.suffix_cons ..)
      have husing' := husing.after hcomputed (List.suffix_cons ..) hturned' hcomes.guard
      have hleads := hcomputed.leads (List.suffix_cons ..)
      have hpart' : n.session.part id n.session.thread = some place.id := by
        rw [hturned'.thread]
        exact hleads.extends.part hpart
      obtain ⟨n', hfinished, hcontrol', hstack', hfinish⟩ :=
        husing'.path_computing hcontrol hstack hpart'
      exact ⟨_, .populate hstart hcomes, n', (hstarted.trans hcomputed').trans hfinished, hcontrol',
        hstack', (hturned.trans hturned').trans hfinish⟩

/-- A program that has a frame of its own put on the stack runs its first part on top of it. -/
theorem Using.of_step (h : m.Using target id hint c) (hpath : Path (fun _ => True) base m n)
    (hb : base <:+ m.stack) (session : n.session = m.session) : n.Using target id hint c := by
  refine h.after hpath hb ?_ rfl
  rw [session]
  exact .of_shared h.target h.cache rfl rfl

/-- The first part of a program comes to what it comes to, on top of the frame for the rest. -/
theorem Using.path_onto (h : m.Using target id hint c) {u : Use} {p : Program}
    (control : m.control = .eval p)
    (hstep : m.step = ⟨.eval (u.program target), frame :: m.stack, m.session⟩)
    (hu : ∀ {n : Machine} {c : StableCache}, n.Using target id hint c →
      n.control = .eval (u.program target) → n.ComesToUse target id hint u c) :
    ∃ r n, u.Comes m.session.thread hint c r ∧ Path (fun _ => True) m.stack m n ∧
      n.control = .ofOutcome r.1 ∧ n.stack = frame :: m.stack ∧
      m.session.Turned target id r.2 n.session ∧ n.Using target id hint r.2 := by
  let asked : Machine := ⟨.eval (u.program target), frame :: m.stack, m.session⟩
  have hasked : Path (fun _ => True) m.stack m asked := Path.eval control trivial hstep
  have husing : asked.Using target id hint c := h.of_step hasked List.suffix_rfl rfl
  obtain ⟨r, hcomes, hyields⟩ := hu husing rfl
  obtain ⟨n, hpath, hcontrol, hstack, hturned⟩ :=
    hyields.onto (rfl : asked.stack = frame :: m.stack)
  exact ⟨r, n, hcomes, hasked.trans hpath, hcontrol, hstack, hturned,
    husing.after hpath (List.suffix_cons ..) hturned hcomes.guard⟩

/-- What a command answers is the outcome. -/
theorem yields_reply {s : Session} {outcome : Except Fault Value}
    (hturned : m.session.Turned target id c s)
    (hpath : Path (fun _ => True) m.stack m (reply m.stack (outcome, s))) :
    m.Yields target id (outcome, c) := by
  cases outcome with
  | ok v => exact ⟨_, hpath, rfl, rfl, hturned⟩
  | error f =>
    have hreport : s.Turned target id c (s.report f) := .of_shared hturned.target hturned.cache
      (Session.shared_report ..) (Session.registry_report ..)
    exact ⟨_, hpath, rfl, rfl, hturned.trans hreport⟩

/-- **A use comes to something that it may come to.** -/
theorem Using.comesToUse (u : Use) (sound : u.Sound target id) (h : m.Using target id hint c)
    (control : m.control = .eval (u.program target)) : m.ComesToUse target id hint u c := by
  -- on the use; what runs first may change the cache, so the rest is met at another one
  induction u generalizing m c with
  | other p outcomes =>
    obtain ⟨m', hends, ⟨r, hr, hcontrol⟩, htarget, hcaches⟩ := sound m h.reachable h.target control
    exact ⟨_, .other hr, m', hends.path, hcontrol, hends.stack_eq, .of_same h.target h.cache
      hends.thread_eq (htarget.trans h.target.symm) hcaches⟩
  | bind first next hfirst hnext =>
    obtain ⟨⟨r, c'⟩, n, hcomes, hpath, hcontrol, hstack, hturned, husing⟩ :=
      h.path_onto control (by rw [step, control]; rfl) (hfirst sound.1)
    have hb : m.stack <:+ n.stack := hstack ▸ List.suffix_cons ..
    cases r with
    | ok v =>
      have hresumed := path_resume hcontrol hstack
      rw [resume] at hresumed
      obtain ⟨r', hcomes', hyields⟩ := hnext v (sound.2 v) (husing.of_step hresumed hb rfl) rfl
      rw [hturned.thread] at hcomes'
      exact ⟨r', .bind hcomes hcomes', hyields.of_path (hpath.trans hresumed) rfl hturned⟩
    | error f =>
      have hunwound := path_unwind hcontrol hstack
      exact ⟨_, .stop hcomes, _, hpath.trans hunwound, rfl, rfl, hturned⟩
  | attempt body kinds handler hbody hhandler =>
    obtain ⟨⟨r, c'⟩, n, hcomes, hpath, hcontrol, hstack, hturned, husing⟩ :=
      h.path_onto control (by rw [step, control]; rfl) (hbody sound.1)
    have hb : m.stack <:+ n.stack := hstack ▸ List.suffix_cons ..
    cases r with
    | ok v =>
      have hresumed := path_resume hcontrol hstack
      exact ⟨_, .attempt hcomes, _, hpath.trans hresumed, rfl, rfl, hturned⟩
    | error f =>
      have hunwound := path_unwind hcontrol hstack
      rw [unwind] at hunwound
      cases hkind : kinds.any f.kind.isA with
      | true =>
        rw [if_pos hkind] at hunwound
        obtain ⟨r', hcomes', hyields⟩ :=
          hhandler f (sound.2 f) (husing.of_step hunwound hb rfl) rfl
        rw [hturned.thread] at hcomes'
        exact ⟨r', .handle hcomes hkind hcomes',
          hyields.of_path (hpath.trans hunwound) rfl hturned⟩
      | false =>
        rw [if_neg (Bool.not_eq_true _ ▸ hkind)] at hunwound
        exact ⟨_, .pass hcomes hkind, _, hpath.trans hunwound, rfl, rfl, hturned⟩
  | populate key compute hcompute =>
    obtain ⟨place, s, hstep, -, hpart, found, hturned⟩ := h.reach control
    let n : Machine := ⟨.eval (.populate place key fun v => (compute v).program target), m.stack, s⟩
    have hn : Path (fun _ => True) m.stack m n := Path.eval control trivial hstep
    have husing : n.Using target id hint c := h.after hn List.suffix_rfl hturned rfl
    obtain ⟨r, hcomes, hyields⟩ :=
      husing.yields_populate rfl hpart found (hcompute key (sound key))
    rw [show n.session.thread = m.session.thread from hturned.thread] at hcomes
    exact ⟨r, hcomes, hyields.of_path hn rfl hturned⟩
  | retrieve key =>
    obtain ⟨place, s, hstep, rfl, -, found, hturned⟩ := h.reach control
    have hreply : (⟨.eval (.retrieve place key), m.stack, s⟩ : Machine).step =
        reply m.stack (c.retrieve place.hint (s.request key), s) := step_retrieve found
    rw [StableCache.retrieve_request h.free] at hreply
    exact ⟨_, .retrieve key c, yields_reply hturned
      ((Path.eval control trivial hstep).trans (Path.eval rfl trivial hreply))⟩
  | isPopulated key =>
    obtain ⟨place, s, hstep, -, -, found, hturned⟩ := h.reach control
    have hreply : (⟨.eval (.contains place key), m.stack, s⟩ : Machine).step =
        reply m.stack ((c.contains (s.request key)).map .bool, s) := step_contains found
    rw [StableCache.contains_request h.free] at hreply
    exact ⟨_, .isPopulated key c, yields_reply hturned
      ((Path.eval control trivial hstep).trans (Path.eval rfl trivial hreply))⟩

end Machine

end CheckedMemo
