import CheckedMemo.Proofs.Borrowing
import CheckedMemo.Proofs.HookChains

/-!
# Fetching artifacts

A call that goes through a hook of an override and gives a value leaves the artifact of its key
behind (`Hooking.captured`, `Reachable.artifact_of_hooked`).  So a fetch that has had to run its
query finds the artifact afterwards, unless the query has failed or a write view of the artifacts
keeps it from looking (`Fetched`).  Where the artifact is there from the start, no provider is
looked up; and whoever reads the artifact of the key on the thread, sooner or later, gets the same
value (`Reads.artifact_eq`).  The main statement is `fetch_delivers`.
-/

namespace CheckedMemo

/-- Gives the artifact when the query has been run. -/
def Frame.retrieving (place : Place) (call : Call) : Frame :=
  .bind fun _ => .retrieve place call.key

namespace StableCache

variable {c : StableCache} {r : Request} {k : Key} {v : Value} {hint : Option String}

theorem retrieve_of_present (free : c.guard.writing = false) (hk : r.index = .ok k)
    (hv : c.slots.get? k = some v) : c.retrieve hint r = .ok v := by
  have hread : c.guard.obstacle? .read = none := c.guard.obstacle?_read_eq_none_iff.mpr free
  have hcontains : c.contains r = .ok true :=
    contains_eq_ok_iff.mpr ⟨hread, k, hk, by rw [hv]; rfl⟩
  rw [retrieve, hcontains]
  exact peek_eq_ok_iff.mpr ⟨hread, k, hk, hv⟩

theorem retrieve_of_writing (h : c.guard.writing = true) :
    c.retrieve hint r = .error (r.fault (.conflict c.label .read .write)) := by
  have hread : c.guard.obstacle? .read = some .write := if_pos h
  rw [retrieve, contains_of_obstacle hread]
  rfl

/-- A look-up of a key gives an answer unless a write view is active or the key is unhashable. -/
theorem contains_cases (c : StableCache) (r : Request) :
    (c.guard.writing = true ∧ c.contains r = .error (r.fault (.conflict c.label .read .write))) ∨
    (c.guard.writing = false ∧ ∃ u, r.key.key = .error u ∧ c.contains r = .error (.unhashable u)) ∨
    c.guard.writing = false ∧ ∃ k, r.key.key = .ok k ∧
      c.contains r = .ok (c.slots.get? k).isSome := by
  cases h : c.guard.writing with
  | true => exact .inl ⟨rfl, contains_of_obstacle (if_pos h)⟩
  | false =>
    have hread : c.guard.obstacle? .read = none := c.guard.obstacle?_read_eq_none_iff.mpr h
    cases hkey : r.key.key with
    | error u =>
      refine .inr (.inl ⟨rfl, u, rfl, ?_⟩)
      have hindex : r.index = .error (.unhashable u) := by
        rw [Request.index, hkey]
      rw [contains, find, Guard.allow_of_free hread, hindex]
      rfl
    | ok k =>
      exact .inr (.inr ⟨rfl, k, rfl, contains_eq_ok_iff.mpr
        ⟨hread, k, Request.index_eq_ok_iff.mpr hkey, rfl⟩⟩)

end StableCache

namespace Machine

variable {m m' n n' : Machine} {id table behind base code : Nat} {ids : List Nat} {call : Call}
  {k : Key} {o : Override} {f : Fault} {v w : Value}

/-! ### What a hook leaves behind -/

theorem control_of_ends_raise {s : Session} {stack : List Frame}
    (h : Ends stack ⟨.raise f, stack, s⟩ m') : m'.control = .raise f := by
  rw [h.unique (.here rfl rfl)]

/-- A hook whose key has no artifact has one extracted, or fails before. -/
theorem Hooking.asks_or_fails {s : Session} {place : Place} {c : StableCache}
    (hooking : Hooking id behind o call m)
    (located : m.session.locateArtifacts id = .ok (place, s))
    (found : s.resources[place.id]? = some (.stable c))
    (absent : c.contains (s.request call.key) = .ok false) :
    (∃ a, Silent m.stack m.step a ∧ Extracts id call m a) ∨
      ∃ f s', Silent m.stack m.step ⟨.raise f, m.stack, s'⟩ := by
  have hbefore : Silent m.stack ⟨.eval (o.hook id behind call), m.stack, m.session⟩
      ⟨.eval (o.extraction call), .populating place call :: .passing behind call :: m.stack, s⟩ :=
    silent_absent located found absent
  rw [← hooking.step_eq] at hbefore
  have hstack : m.stack <:+ .populating place call :: .passing behind call :: m.stack :=
    (List.suffix_cons ..).trans (List.suffix_cons ..)
  cases hspelled : (s.request call.key).spelled with
  | error f =>
    have hstop := hbefore.trans (silent_extraction_unspelled hstack hspelled)
    exact .inr ⟨f, _, hstop.trans (silent_failed "" false)⟩
  | ok text =>
    cases hflag : s.environment.timing with
    | error f =>
      have hstop := hbefore.trans (silent_extraction_unflagged hstack hspelled hflag)
      exact .inr ⟨f, _, hstop.trans (silent_failed "" false)⟩
    | ok b =>
      have hasked := hbefore.trans (silent_extraction hstack hspelled hflag)
      refine .inl ⟨_, hasked, behind, o, hooking, hasked, rfl, fun h => ?_⟩
      have hlength := congrArg List.length h
      simp only [List.length_append, List.length_cons] at hlength
      omega

/-- An extraction in the course of a call that gives a value has given one, and the cache has taken
it. -/
theorem Extracts.captured {a : Machine} (hm : Reachable m) (hooking : Hooking id behind o call m)
    (extracts : Extracts id call m a) (hkey : call.key.key = .ok k) (hends : Ends m.stack a m')
    (hw : m'.control = .give w) :
    ∃ v z, Leads m z ∧ z.control = .eval (.invoke behind call) ∧ z.stack = m.stack ∧
      z.session.thread = m.session.thread ∧
      z.session.artifact id m.session.thread k = some v ∧ Ends m.stack z m' := by
  obtain ⟨a', returns⟩ := hends.exists_above extracts.suffix List.suffix_rfl
  have hends' : Ends m.stack a' m' :=
    (returns.path.lower extracts.suffix List.suffix_rfl).ends_iff.mp hends
  -- the call has given a value, so it has not failed on the way
  have raised {f : Fault} {s : Session} (hs : Silent m.stack a' ⟨.raise f, m.stack, s⟩) :
      False := by
    cases (control_of_ends_raise (hs.ends_iff.mp hends')).symm.trans hw
  cases hcontrol : a'.control with
  | eval p => cases hcontrol ▸ returns.isOutcome
  | raise f =>
    obtain ⟨behind', o', place, s, c, text, b, -, -, -, -, -, -, -, ha⟩ := extracts.inv hm
    have hstack : a'.stack = Frame.timing (o'.blockLabel text.text) b ++
        .populating place call :: .passing behind' call :: m.stack :=
      returns.stack_eq.trans (congrArg Machine.stack ha)
    have hfailed : Silent m.stack a'
        ⟨.raise f, m.stack, a'.session.timed (o'.blockLabel text.text) b⟩ := by
      obtain ⟨control', stack', s'⟩ := a'
      obtain rfl : control' = .raise f := hcontrol
      obtain rfl := hstack
      exact silent_failed ..
    exact (raised hfailed).elim
  | give u =>
    obtain ⟨behind', o', place, c, label, b, hooking', hleads, showable, hthread, hpart, found,
        ha'⟩ := extracts.returned hm returns hcontrol hkey
    obtain ⟨rfl, rfl⟩ := hooking.unique hooking'
    by_cases accepts : c.Accepts k
    · obtain ⟨z, c', hz, hb, control, stack, hzthread, hstores, hcaches⟩ :=
        (hm.leads hleads).captures ha' (hleads.extends.override hooking.override) hpart found hkey
          showable accepts
      have hartifact := artifact_of_storesAs ((hcaches id).trans (if_pos rfl)) hstores
      exact ⟨_, z, hleads.trans (hz.leads hb), control, stack, hzthread.trans hthread, hartifact,
        hz.ends_iff.mp hends'⟩
    · obtain ⟨z, f, hz, hcontrol', hstack', -⟩ := loses ha' found hkey accepts
      obtain ⟨control', stack', s'⟩ := z
      obtain rfl : control' = .raise f := hcontrol'
      obtain rfl : stack' = m.stack := hstack'
      exact (raised hz).elim

/-- A hook that is called in the course of a call that gives a value has passed the call on, and its
override has an artifact of the key by then. -/
theorem Hooking.captured (hm : Reachable m) (hooking : Hooking id behind o call m)
    (hends : Ends m.stack m m') (hw : m'.control = .give w) :
    ∃ k v z, call.key.key = .ok k ∧ Leads m z ∧ z.control = .eval (.invoke behind call) ∧
      z.stack = m.stack ∧ z.session.thread = m.session.thread ∧
      z.session.artifact id m.session.thread k = some v ∧ Ends m.stack z m' := by
  obtain ⟨place, s, c, located, locates, found, hcache⟩ := hooking.exists_located hm
  obtain ⟨code, control, -⟩ := hooking.calls
  have hmove : Move m m.step := .step (outcome?_eq_none_of_eval control)
  have hends₁ : Ends m.stack m.step m' := hends.of_eval control
  have raised {f : Fault} {s' : Session} (hs : Silent m.stack m.step ⟨.raise f, m.stack, s'⟩) :
      False := by
    cases (control_of_ends_raise (hs.ends_iff.mp hends₁)).symm.trans hw
  rcases c.contains_cases (s.request call.key) with
    ⟨-, hcontains⟩ | ⟨-, u, -, hcontains⟩ | ⟨-, k, hkey, hcontains⟩
  · exact (raised (hooking.step_eq ▸ silent_refused located found hcontains)).elim
  · exact (raised (hooking.step_eq ▸ silent_refused located found hcontains)).elim
  cases hslot : c.slots.get? k with
  | some v =>
    rw [hslot] at hcontains
    have hpassed : Silent m.stack m.step ⟨.eval (.invoke behind call), m.stack, s⟩ :=
      hooking.step_eq ▸ silent_present located found hcontains
    have hthread : s.thread = m.session.thread := by
      obtain ⟨resources, confined, rfl⟩ := locates.rest
      rfl
    refine ⟨k, v, ⟨.eval (.invoke behind call), m.stack, s⟩, hkey,
      .head hmove (hpassed.leads hooking.suffix_step), rfl, rfl, hthread, ?_,
      hpassed.ends_iff.mp hends₁⟩
    show s.artifact id m.session.thread k = some v
    rw [Session.artifact, locates.artifactCache_eq, hcache, Option.bind_some, hslot]
  | none =>
    rw [hslot] at hcontains
    rcases hooking.asks_or_fails located found hcontains with ⟨a, hasked, extracts⟩ | ⟨f, s', hs⟩
    · obtain ⟨v, z, hz⟩ := extracts.captured hm hooking hkey (hasked.ends_iff.mp hends₁) hw
      exact ⟨k, v, z, hkey, hz⟩
    · exact (raised hs).elim

/-- **A call through a hook leaves the artifact behind**, if it gives a value. -/
theorem Reachable.artifact_of_hooked (hooked : Hooked m.session.code base code ids)
    (hm : Reachable m) (hid : id ∈ ids) (control : m.control = .eval (.invoke code call))
    (hends : Ends m.stack m m') (hw : m'.control = .give w) :
    ∃ k v, call.key.key = .ok k ∧ m'.session.artifact id m.session.thread k = some v := by
  -- on the chain, from the outermost hook: what is behind a hook is a chain for the same call again
  induction ids generalizing m code with
  | nil => cases hid
  | cons i ids ih =>
    cases hooked with
    | @hook _ _ behind _ found rest =>
      obtain ⟨o, ho⟩ := hm.orderly.hooks found
      have hooking : Hooking i behind o call m := ⟨⟨code, control, found⟩, ho⟩
      obtain ⟨k, v, z, hkey, hleads, hcontrol, hstack, hthread, hartifact, hrest⟩ :=
        hooking.captured hm hends hw
      rw [← hstack] at hrest
      rcases List.mem_cons.mp hid with rfl | hid
      · refine ⟨k, v, hkey, ?_⟩
        exact (hm.leads hleads).artifact_leads hartifact (hrest.leads List.suffix_rfl)
      · rw [← hthread]
        exact ih (rest.extends hleads.extends) (hm.leads hleads) hid hcontrol hrest

/-! ### The stretches of a fetch -/

section

variable {s : Session} {place : Place} {c : StableCache}

/-- A fetch looks for the artifacts of the current thread first. -/
theorem unaided_fetch (control : m.control = .eval (.fetch id table call))
    (ho : m.session.overrides[id]? = some o)
    (located : m.session.locateArtifacts id = .ok (place, s)) :
    Unaided m.stack m
      ⟨.eval (.branch (.contains place call.key) (.done .null)
          (.locate (.entry table o.query) fun code => .invoke code call)),
        .retrieving place call :: m.stack, s⟩ := by
  have hfetch : m.step = ⟨.eval (o.fetch id table call), m.stack, m.session⟩ := by
    rw [step, control]
    dsimp only [begin]
    rw [ho]
  have hreach : (⟨.eval (o.fetch id table call), m.stack, m.session⟩ : Machine).step =
      ⟨.eval (.andThen
          (.branch (.contains place call.key) (.done .null)
            (.locate (.entry table o.query) fun code => .invoke code call))
          (.retrieve place call.key)), m.stack, s⟩ := by
    rw [step]
    dsimp only [begin, Override.fetch]
    rw [show m.session.locate (.artifacts id) = .ok (place, s) from located]
  refine (Unaided.eval control rfl hfetch).trans ((Unaided.eval rfl rfl hreach).trans ?_)
  exact Unaided.eval rfl rfl rfl

/-- A fetch that cannot look its key up ends there. -/
theorem unaided_fetch_refused (control : m.control = .eval (.fetch id table call))
    (ho : m.session.overrides[id]? = some o)
    (located : m.session.locateArtifacts id = .ok (place, s))
    (found : s.resources[place.id]? = some (.stable c))
    (refused : c.contains (s.request call.key) = .error f) :
    Unaided m.stack m ⟨.raise f, m.stack, s.report f⟩ := by
  refine (unaided_fetch control ho located).trans ?_
  refine (unaided_branch_refused (List.suffix_cons ..) found refused).trans ?_
  exact Unaided.resume rfl List.suffix_rfl rfl rfl

/-- For an artifact that is not there the provider of the query is called. -/
theorem silent_fetch_absent (control : m.control = .eval (.fetch id table call))
    (ho : m.session.overrides[id]? = some o)
    (located : m.session.locateArtifacts id = .ok (place, s))
    (found : s.resources[place.id]? = some (.stable c))
    (absent : c.contains (s.request call.key) = .ok false)
    (entry : s.entry table o.query = some code) :
    Silent m.stack m ⟨.eval (.invoke code call), .retrieving place call :: m.stack, s⟩ := by
  obtain ⟨t, htable, hcode⟩ := Option.bind_eq_some_iff.mp entry
  have hlocate : (⟨.eval (.locate (.entry table o.query) fun code => .invoke code call),
      .retrieving place call :: m.stack, s⟩ : Machine).step =
        ⟨.eval (.invoke code call), .retrieving place call :: m.stack, s⟩ := by
    rw [step]
    dsimp only [begin, Session.codeAt]
    rw [htable]
    dsimp only
    rw [Session.provider, hcode]
    rfl
  refine (unaided_fetch control ho located).silent.trans ?_
  refine (unaided_branch (List.suffix_cons ..) found absent).silent.trans ?_
  exact Silent.eval rfl rfl hlocate

/-- An artifact that is there is given in the end, unless a write view is active. -/
theorem retrieving_cases {base : List Frame} (control : m.control = .give w)
    (stack : m.stack = .retrieving place call :: base)
    (found : m.session.resources[place.id]? = some (.stable c)) (hkey : call.key.key = .ok k)
    (hv : c.slots.get? k = some v) :
    (c.guard.writing = true ∧ ∃ s, Unaided base m
      ⟨.raise ((m.session.request call.key).fault (.conflict c.label .read .write)), base, s⟩) ∨
    c.guard.writing = false ∧ Unaided base m ⟨.give v, base, m.session⟩ := by
  have hresume : m.step = ⟨.eval (.retrieve place call.key), base, m.session⟩ := by
    rw [step, control, stack]
    rfl
  have houtcome : m.control.isOutcome = true := by
    rw [control]
    rfl
  have hretrieve : Unaided base m
      (reply base (c.retrieve place.hint (m.session.request call.key), m.session)) :=
    (Unaided.resume stack List.suffix_rfl houtcome hresume).trans
      (Unaided.eval rfl rfl (step_retrieve found))
  cases hwriting : c.guard.writing with
  | true =>
    rw [StableCache.retrieve_of_writing hwriting] at hretrieve
    exact .inl ⟨rfl, _, hretrieve⟩
  | false =>
    rw [StableCache.retrieve_of_present hwriting (Request.index_eq_ok_iff.mpr hkey) hv] at hretrieve
    exact .inr ⟨rfl, hretrieve⟩

/-- A fetch of an artifact that is there gives it, and looks no provider up. -/
theorem unaided_fetch_present (control : m.control = .eval (.fetch id table call))
    (ho : m.session.overrides[id]? = some o)
    (located : m.session.locateArtifacts id = .ok (place, s))
    (found : s.resources[place.id]? = some (.stable c)) (free : c.guard.writing = false)
    (hkey : call.key.key = .ok k) (hv : c.slots.get? k = some v) :
    Unaided m.stack m ⟨.give v, m.stack, s⟩ := by
  have hcontains : c.contains (s.request call.key) = .ok true :=
    StableCache.contains_eq_ok_iff.mpr ⟨c.guard.obstacle?_read_eq_none_iff.mpr free, k,
      Request.index_eq_ok_iff.mpr hkey, by rw [hv]; rfl⟩
  refine (unaided_fetch control ho located).trans ?_
  refine (unaided_branch (List.suffix_cons ..) found hcontains).trans ?_
  refine (Unaided.eval rfl rfl rfl).trans ?_
  rcases retrieving_cases (m := ⟨.give .null, .retrieving place call :: m.stack, s⟩) rfl rfl found
    hkey hv with ⟨hwriting, -⟩ | ⟨-, hgiven⟩
  · cases hwriting.symm.trans free
  · exact hgiven

end

/-! ### The course of a fetch -/

/-- A write view of the artifacts on the current thread keeps a key from being looked up.  The fault
tells of the conflict, if the key can be shown. -/
def ViewConflict (s : Session) (id : Nat) (key : Value) (f : Fault) : Prop :=
  ∃ c, s.artifactCache id s.thread = some c ∧ c.guard.writing = true ∧
    f = (s.request key).fault (.conflict c.label .read .write)

theorem ViewConflict.kind_eq {s : Session} {key : Value} (h : ViewConflict s id key f) :
    f.kind = if (s.memory.text? key).isSome then .borrow else .badValue := by
  obtain ⟨c, -, -, rfl⟩ := h
  exact (s.request key).kind_fault_conflict c.label .read .write

/-- A fetch at `m` finds no artifact of its key, and has come to the call of the provider at `n`. -/
structure Consulting (id code : Nat) (call : Call) (k : Key) (m n : Machine) : Prop where
  absent : m.session.artifact id m.session.thread k = none
  silent : Silent m.stack m n
  control : n.control = .eval (.invoke code call)
  above : ∃ frame, n.stack = frame :: m.stack
  thread : n.session.thread = m.session.thread

/-- What a fetch at `m` comes to whose query is answered by `code`: the machine at which it ends, if
it ends. -/
inductive Fetched (id code : Nat) (call : Call) (m : Machine) : Option Machine → Prop where
  | unhashable {u : Unhashable} {s : Session} (hkey : call.key.key = .error u)
    (silent : Unaided m.stack m ⟨.raise (.unhashable u), m.stack, s⟩) :
    Fetched id code call m (some ⟨.raise (.unhashable u), m.stack, s⟩)
  /-- A view is in the way from the start. -/
  | refused {f : Fault} {s : Session} (conflict : ViewConflict m.session id call.key f)
    (silent : Unaided m.stack m ⟨.raise f, m.stack, s⟩) :
    Fetched id code call m (some ⟨.raise f, m.stack, s⟩)
  /-- The artifact is there, and is given. -/
  | present {k : Key} {v : Value} (hkey : call.key.key = .ok k)
    (artifact : m.session.artifact id m.session.thread k = some v)
    (silent : Unaided m.stack m ⟨.give v, m.stack, m.session⟩) :
    Fetched id code call m (some ⟨.give v, m.stack, m.session⟩)
  /-- The provider fails, and its fault is passed on. -/
  | fails {k : Key} {n n' : Machine} {f : Fault} (hkey : call.key.key = .ok k)
    (consulting : Consulting id code call k m n) (ends : Ends n.stack n n')
    (failure : n'.control = .raise f)
    (silent : Unaided m.stack n' ⟨.raise f, m.stack, n'.session⟩) :
    Fetched id code call m (some ⟨.raise f, m.stack, n'.session⟩)
  /-- The provider does not come to an end. -/
  | endless {k : Key} {n : Machine} (hkey : call.key.key = .ok k)
    (consulting : Consulting id code call k m n) (never : ∀ n', ¬Ends n.stack n n') :
    Fetched id code call m none
  /-- The provider has answered, and has left a view that is in the way. -/
  | refusedAfter {k : Key} {n n' : Machine} {w : Value} {f : Fault} {s : Session}
    (hkey : call.key.key = .ok k) (consulting : Consulting id code call k m n)
    (ends : Ends n.stack n n') (answer : n'.control = .give w)
    (conflict : ViewConflict n'.session id call.key f)
    (silent : Unaided m.stack n' ⟨.raise f, m.stack, s⟩) :
    Fetched id code call m (some ⟨.raise f, m.stack, s⟩)
  /-- The provider has answered, and the artifact is given. -/
  | delivered {k : Key} {n n' : Machine} {v w : Value} (hkey : call.key.key = .ok k)
    (consulting : Consulting id code call k m n) (ends : Ends n.stack n n')
    (answer : n'.control = .give w)
    (artifact : n'.session.artifact id m.session.thread k = some v)
    (silent : Unaided m.stack n' ⟨.give v, m.stack, n'.session⟩) :
    Fetched id code call m (some ⟨.give v, m.stack, n'.session⟩)

theorem Consulting.suffix (h : Consulting id code call k m n) : m.stack <:+ n.stack := by
  obtain ⟨frame, hstack⟩ := h.above
  exact hstack ▸ List.suffix_cons ..

/-- The end of a fetch, if it has one. -/
theorem Fetched.ends_iff {r : Option Machine} (h : Fetched id code call m r) :
    Ends m.stack m m' ↔ r = some m' := by
  have ended {c : Control} {s : Session} (hc : c.isOutcome = true)
      (hpath : Path (fun _ => True) m.stack m ⟨c, m.stack, s⟩) :
      Ends m.stack m m' ↔ some ⟨c, m.stack, s⟩ = some m' := by
    rw [hpath.ends_iff, Option.some.injEq, eq_comm]
    exact ends_of_isOutcome (m := ⟨c, m.stack, s⟩) hc
  have after {k : Key} {n n' : Machine} (hn : Consulting id code call k m n)
      (ends : Ends n.stack n n') : Path (fun _ => True) m.stack m n' :=
    (hn.silent.mono fun _ _ => trivial).trans (ends.path.lower hn.suffix List.suffix_rfl)
  cases h with
  | unhashable _ silent | refused _ silent | present _ _ silent =>
    exact ended rfl (silent.mono fun _ _ => trivial)
  | fails _ consulting ends _ silent | refusedAfter _ consulting ends _ _ silent
  | delivered _ consulting ends _ _ silent =>
    exact ended rfl ((after consulting ends).trans (silent.mono fun _ _ => trivial))
  | endless _ consulting never =>
    constructor
    · intro hends
      obtain ⟨n', hn'⟩ := (consulting.silent.ends_iff.mp hends).exists_above consulting.suffix
        List.suffix_rfl
      exact absurd hn' (never n')
    · intro heq
      cases heq

/-- A fetch that has come to the call of the provider delivers the artifact, or fails, or does not
come to an end. -/
theorem Consulting.fetched {place : Place} (hn : Reachable n)
    (consulting : Consulting id code call k m n) (hkey : call.key.key = .ok k)
    (ho : n.session.overrides[id]? = some o)
    (hpart : n.session.part o.artifacts n.session.thread = some place.id)
    (stack : n.stack = .retrieving place call :: m.stack)
    (hooked : Hooked n.session.code base code ids) (hid : id ∈ ids) :
    ∃ r, Fetched id code call m r := by
  by_cases hends : ∃ n', Ends n.stack n n'
  · obtain ⟨n', hn'⟩ := hends
    have hleads : Leads n n' := hn'.leads List.suffix_rfl
    have hstack : n'.stack = .retrieving place call :: m.stack := hn'.stack_eq.trans stack
    cases hcontrol : n'.control with
    | eval p => cases hcontrol ▸ hn'.isOutcome
    | raise f =>
      refine ⟨_, .fails hkey consulting hn' hcontrol ?_⟩
      exact Unaided.resume hstack List.suffix_rfl (by rw [hcontrol]; rfl)
        (by rw [step, hcontrol, hstack]; rfl)
    | give w =>
      -- a hook of the override stands in the chain, so the artifact has been captured
      obtain ⟨j, v, hj, hartifact⟩ :=
        hn.artifact_of_hooked hooked hid consulting.control hn' hcontrol
      obtain rfl : k = j := Except.ok.inj (hkey.symm.trans hj)
      obtain ⟨c, found⟩ := hn.orderly.hosted hpart
      obtain ⟨c', found'⟩ := hn.stable_leads found hleads
      have ho' : n'.session.overrides[id]? = some o := hleads.extends.override ho
      have hpart' : n'.session.part o.artifacts n.session.thread = some place.id :=
        hleads.extends.part hpart
      have hslot : c'.slots.get? k = some v := by
        rw [← Session.artifact_of_part ho' hpart' found', hartifact]
      rcases retrieving_cases hcontrol hstack found' hkey hslot with
        ⟨hwriting, s, hrefused⟩ | ⟨-, hgiven⟩
      · refine ⟨_, .refusedAfter hkey consulting hn' hcontrol ⟨c', ?_, hwriting, rfl⟩ hrefused⟩
        rw [hn'.thread_eq, Session.artifactCache, ho', Option.bind_some,
          Session.confinedCache_of_part hpart']
        exact Session.stableAt_eq_some_iff.mpr found'
      · refine ⟨_, .delivered hkey consulting hn' hcontrol ?_ hgiven⟩
        rw [← consulting.thread]
        exact hartifact
  · exact ⟨none, .endless hkey consulting (not_exists.mp hends)⟩

/-- **The course of a fetch** whose query is answered through a hook of the override. -/
theorem Reachable.fetched (hm : Reachable m) (control : m.control = .eval (.fetch id table call))
    (ho : m.session.overrides[id]? = some o) (entry : m.session.entry table o.query = some code)
    (hooked : Hooked m.session.code base code ids) (hid : id ∈ ids) :
    ∃ r, Fetched id code call m r := by
  obtain ⟨place, s, located, locates⟩ := hm.orderly.exists_locateArtifacts ho
  obtain ⟨c, found, hcache⟩ := locates.exists_cache
  have hartifacts : m.session.artifactCache id m.session.thread = some c := by
    rw [Session.artifactCache, ho, Option.bind_some, hcache]
  have hrest := locates.rest
  rcases c.contains_cases (s.request call.key) with
    ⟨hwriting, hcontains⟩ | ⟨-, u, hkey, hcontains⟩ | ⟨hfree, k, hkey, hcontains⟩
  · refine ⟨_, .refused ⟨c, hartifacts, hwriting, ?_⟩
      (unaided_fetch_refused control ho located found hcontains)⟩
    obtain ⟨resources, confined, rfl⟩ := hrest
    rfl
  · exact ⟨_, .unhashable hkey (unaided_fetch_refused control ho located found hcontains)⟩
  cases hslot : c.slots.get? k with
  | some v =>
    -- a cache that holds something has been made before
    obtain ⟨r, hpart⟩ := Session.part_of_slots hcache hslot
    obtain rfl := locates.same hpart
    refine ⟨_, .present hkey ?_
      (unaided_fetch_present control ho located found hfree hkey hslot)⟩
    rw [Session.artifact, hartifacts, Option.bind_some, hslot]
  | none =>
    rw [hslot] at hcontains
    have absent : m.session.artifact id m.session.thread k = none := by
      rw [Session.artifact, hartifacts, Option.bind_some, hslot]
    have hpart := locates.part
    have hgrows := locates.grows
    obtain ⟨resources, confined, rfl⟩ := hrest
    have hsilent : Silent m.stack m ⟨.eval (.invoke code call), .retrieving place call :: m.stack,
        { m.session with resources, confined }⟩ :=
      silent_fetch_absent control ho located found hcontains entry
    have consulting : Consulting id code call k m ⟨.eval (.invoke code call),
        .retrieving place call :: m.stack, { m.session with resources, confined }⟩ :=
      ⟨absent, hsilent, rfl, ⟨_, rfl⟩, rfl⟩
    exact consulting.fetched (hm.leads (hsilent.leads List.suffix_rfl)) hkey (hgrows.override ho)
      hpart rfl (hooked.extends hgrows) hid

/-! ### Readings of an artifact -/

/-- At `n` the artifact of a key is read on the current thread: it is fetched, or retrieved. -/
inductive Reads (id : Nat) (k : Key) (n : Machine) : Prop where
  | fetch {table : Nat} {call : Call} (control : n.control = .eval (.fetch id table call))
    (hkey : call.key.key = .ok k)
  | retrieve {place : Place} {key : Value} {o : Override}
    (control : n.control = .eval (.retrieve place key)) (ho : n.session.overrides[id]? = some o)
    (hpart : n.session.part o.artifacts n.session.thread = some place.id)
    (hkey : key.key = .ok k)

/-- What a retrieval gives is the artifact. -/
theorem Reachable.artifact_of_retrieve (hn : Reachable n) {place : Place} {key : Value}
    (control : n.control = .eval (.retrieve place key)) (ho : n.session.overrides[id]? = some o)
    (hpart : n.session.part o.artifacts n.session.thread = some place.id) (hkey : key.key = .ok k)
    (hends : Ends n.stack n n') (hw : n'.control = .give w) :
    n'.session.artifact id n.session.thread k = some w := by
  obtain ⟨c, found⟩ := hn.orderly.hosted hpart
  have hstep : n.step =
      reply n.stack (c.retrieve place.hint (n.session.request key), n.session) := by
    obtain ⟨control', stack, s⟩ := n
    obtain rfl : control' = .eval (.retrieve place key) := control
    exact step_retrieve found
  have hends₁ := hends.of_eval control
  rw [hstep] at hends₁
  cases hretrieve : c.retrieve place.hint (n.session.request key) with
  | error f =>
    rw [hretrieve] at hends₁
    cases (control_of_ends_raise hends₁).symm.trans hw
  | ok v =>
    rw [hretrieve] at hends₁
    obtain rfl : n' = ⟨.give v, n.stack, n.session⟩ := hends₁.unique (.here rfl rfl)
    obtain rfl : v = w := Control.give.inj hw
    obtain ⟨-, j, hj, hv⟩ := StableCache.peek_eq_ok_iff.mp (StableCache.peek_of_retrieve hretrieve)
    obtain rfl := index_eq hkey hj
    exact (Session.artifact_of_part ho hpart found).trans hv

/-- **What is read is the artifact**: a reading that gives a value gives the one that the key has
when it ends. -/
theorem Reads.artifact_eq (hn : Reachable n) (h : Reads id k n) (hends : Ends n.stack n n')
    (hw : n'.control = .give w) : n'.session.artifact id n.session.thread k = some w := by
  cases h with
  | retrieve control ho hpart hkey => exact hn.artifact_of_retrieve control ho hpart hkey hends hw
  | @fetch table call control hkey =>
    cases ho : n.session.overrides[id]? with
    | none =>
      have hstep : n.step = refuse Session.unsuitable n.stack n.session := by
        rw [step, control]
        dsimp only [begin]
        rw [ho]
      have hends₁ := hends.of_eval control
      rw [hstep] at hends₁
      cases (control_of_ends_raise hends₁).symm.trans hw
    | some o =>
      obtain ⟨place, s, located, locates⟩ := hn.orderly.exists_locateArtifacts ho
      have hfetch := unaided_fetch control ho located
      -- whatever has been done for the query, a retrieval follows
      obtain ⟨n₁, hn₁, hrest⟩ := (hfetch.ends_iff.mp hends).split List.suffix_rfl
      have hleads : Leads n n₁ := (hfetch.leads List.suffix_rfl).trans (hn₁.leads List.suffix_rfl)
      have hstack : n₁.stack = .retrieving place call :: n.stack := hn₁.stack_eq
      have hmove : Move n₁ n₁.step := .step (outcome?_eq_none_of_stack hstack)
      cases hcontrol : n₁.control with
      | eval p => cases hcontrol ▸ hn₁.isOutcome
      | raise f =>
        have hstep : n₁.step = ⟨.raise f, n.stack, n₁.session⟩ := by
          rw [step, hcontrol, hstack]
          rfl
        rw [hstep] at hrest
        cases (control_of_ends_raise hrest).symm.trans hw
      | give u =>
        have hstep : n₁.step = ⟨.eval (.retrieve place call.key), n.stack, n₁.session⟩ := by
          rw [step, hcontrol, hstack]
          rfl
        have hn₂ : Reachable n₁.step := (hn.leads hleads).move hmove
        have hthread : n₁.session.thread = n.session.thread := by
          have hback : n₁.session.thread = s.thread :=
            Ends.thread_eq (m := ⟨_, .retrieving place call :: n.stack, s⟩) hn₁
          obtain ⟨resources, confined, rfl⟩ := locates.rest
          exact hback
        have hpart : n₁.session.part o.artifacts n₁.session.thread = some place.id := by
          have hleads₁ : Leads ⟨_, .retrieving place call :: n.stack, s⟩ n₁ :=
            hn₁.leads List.suffix_rfl
          rw [hthread]
          exact hleads₁.extends.part locates.part
        have ho₁ : n₁.session.overrides[id]? = some o := hleads.extends.override ho
        rw [hstep] at hn₂ hrest
        rw [← hthread]
        exact hn₂.artifact_of_retrieve rfl ho₁ hpart hkey hrest hw

/-- Whoever reads an artifact that a key has at some point of a session, before or after that point,
and gets a value, gets that artifact. -/
theorem Reads.value_eq (hm : Reachable m) {t : Thread}
    (artifact : m.session.artifact id t k = some v) (hn : Reachable n)
    (hrun : Leads n m ∨ Leads m n) (thread : n.session.thread = t) (h : Reads id k n)
    (hends : Ends n.stack n n') (hw : n'.control = .give w) : w = v := by
  have hread := h.artifact_eq hn hends hw
  rw [thread] at hread
  have horder : Leads n' m ∨ Leads m n' := by
    rcases hrun with hnm | hmn
    · -- the reading has ended before, or is still under way
      exact ((hends.path_leads List.suffix_rfl).leads_cases List.suffix_rfl hnm).symm
    · exact .inr (hmn.trans (hends.leads List.suffix_rfl))
  have hn' : Reachable n' := hn.leads (hends.leads List.suffix_rfl)
  rcases horder with hleads | hleads
  · exact Option.some.inj ((hn'.artifact_leads hread hleads).symm.trans artifact)
  · exact Option.some.inj (hread.symm.trans (hm.artifact_leads artifact hleads))

/-! ### Main statement -/

/-- **A fetch delivers the artifact.**  A call that goes through a hook of an override and gives a
value leaves the artifact of its key behind.  So a fetch whose query is answered through such a hook
gives the artifact, unless the provider fails or does not come to an end, or a write view of the
artifacts is in the way; the fault is then of the borrowing kind if the key can be shown.  While the
key has its artifact and no write view is active, a fetch gives it and looks no provider up, and
whoever reads it on the thread, sooner or later, gets the same. -/
theorem fetch_delivers (hm : Reachable m) (id : Nat) (call : Call) :
    (∀ base code ids m' w, m.control = .eval (.invoke code call) →
      Hooked m.session.code base code ids → id ∈ ids → Ends m.stack m m' →
      m'.control = .give w →
      ∃ k v, call.key.key = .ok k ∧ m'.session.artifact id m.session.thread k = some v) ∧
    (∀ table o base code ids, m.control = .eval (.fetch id table call) →
      m.session.overrides[id]? = some o → m.session.entry table o.query = some code →
      Hooked m.session.code base code ids → id ∈ ids →
      ∃ r, Fetched id code call m r ∧ ∀ m', Ends m.stack m m' ↔ r = some m') ∧
    (∀ s f, ViewConflict s id call.key f →
      f.kind = if (s.memory.text? call.key).isSome then .borrow else .badValue) ∧
    ∀ table k v, m.control = .eval (.fetch id table call) → call.key.key = .ok k →
      m.session.artifact id m.session.thread k = some v →
      (∀ c, m.session.artifactCache id m.session.thread = some c → c.guard.writing = false) →
      Unaided m.stack m ⟨.give v, m.stack, m.session⟩ ∧
      ∀ n n' w, Reachable n → Leads n m ∨ Leads m n → n.session.thread = m.session.thread →
        Reads id k n → Ends n.stack n n' → n'.control = .give w → w = v := by
  refine ⟨?_, ?_, fun s f h => h.kind_eq, ?_⟩
  · intro base code ids m' w control hooked hid hends hw
    exact hm.artifact_of_hooked hooked hid control hends hw
  · intro table o base code ids control ho entry hooked hid
    obtain ⟨r, hr⟩ := hm.fetched control ho entry hooked hid
    exact ⟨r, hr, fun m' => hr.ends_iff⟩
  · intro table k v control hkey hv free
    refine ⟨?_, fun n n' w hn hrun thread reads hends hw =>
      reads.value_eq hm hv hn hrun thread hends hw⟩
    obtain ⟨c, hcache, hslot⟩ := Option.bind_eq_some_iff.mp hv
    obtain ⟨o, ho, hconfined⟩ := Option.bind_eq_some_iff.mp hcache
    obtain ⟨place, s, located, locates⟩ := hm.orderly.exists_locateArtifacts ho
    -- a cache that holds something has been made before
    obtain ⟨r, hpart⟩ := Session.part_of_slots hconfined hslot
    obtain rfl := locates.same hpart
    obtain ⟨c', found, hconfined'⟩ := locates.exists_cache
    obtain rfl : c = c' := Option.some.inj (hconfined.symm.trans hconfined')
    exact unaided_fetch_present control ho located found (free c hcache) hkey hslot

/-- Has an override of one query installed, whose artifacts are not what the provider gives. -/
def overriding : Program :=
  .andThen (.perform (.create (.providers "p"))) <|
    .store (fun _ => .done (.text "answer")) fun provider =>
      .store (fun _ => .done (.text "artifact")) fun extract =>
        .andThen (.perform (.table (.provide "p" "q" provider))) <|
          .andThen (.perform (.create (.override "o" "q" extract))) <|
            .perform (.table (.install "o" "p"))

/-- The machine that is about to fetch the artifact of a key. -/
def fetching (key : Value) : Machine :=
  (load (.resolve "o" "p" fun id table => .fetch id table { key })
    ((load overriding (.start .events [])).run 30).session).run 1

/-- The machine that is about to fetch the artifact again. -/
def fetchingAgain : Machine :=
  (load (.resolve "o" "p" fun id table => .fetch id table { key := .text "k" })
    ((fetching (.text "k")).run 60).session).run 1

theorem reachable_fetching (key : Value) : Reachable (fetching key) :=
  (((Reachable.start ..).leads (leads_run ..)).move (.next rfl _)).leads (leads_run ..)

theorem fetch_delivers_fetching :
    Reachable (fetching (.text "k")) ∧
      (fetching (.text "k")).control = .eval (.fetch 0 0 { key := .text "k" }) ∧
      (fetching (.text "k")).session.entry 0 "q" = some 2 ∧
      Hooked (fetching (.text "k")).session.code 0 2 [0] ∧
      (∃ k m', (Value.text "k").key = .ok k ∧
        Fetched 0 2 { key := .text "k" } (fetching (.text "k")) (some m') ∧
        m'.control = .give (.text "artifact") ∧
        m'.session.artifact 0 "main" k = some (.text "artifact")) ∧
      Reachable fetchingAgain ∧
      Unaided [] fetchingAgain ⟨.give (.text "artifact"), [], fetchingAgain.session⟩ := by
  have hm := reachable_fetching (.text "k")
  have hagain : Reachable fetchingAgain :=
    ((hm.leads (leads_run ..)).move (.next rfl _)).leads (leads_run ..)
  have hooked : Hooked (fetching (.text "k")).session.code 0 2 [0] := .hook rfl .base
  have hends : Ends [] (fetching (.text "k")) ((fetching (.text "k")).run 60) :=
    .of_find? 60 List.suffix_rfl rfl
  obtain ⟨-, hfetched, -⟩ := fetch_delivers hm 0 { key := .text "k" }
  obtain ⟨r, hr, hover⟩ := hfetched 0 _ 0 2 [0] rfl rfl rfl hooked List.mem_cons_self
  obtain rfl := (hover _).mp hends
  obtain ⟨-, -, -, hpresent⟩ := fetch_delivers hagain 0 { key := .text "k" }
  refine ⟨hm, rfl, rfl, hooked, ⟨_, _, rfl, hr, rfl, rfl⟩, hagain, ?_⟩
  refine (hpresent 0 (.ofAtoms [.text "k"]) (.text "artifact") rfl rfl rfl ?_).1
  rintro c ⟨⟩
  rfl

/-- The machine that is about to fetch the artifact of a key while it holds a write view of the
artifacts. -/
def fetchingInside (key : Value) : Machine :=
  (load (.reach (.artifacts 0) fun place =>
      .view place .write .null fun _ => .fetch 0 0 { key })
    ((load overriding (.start .events [])).run 30).session).run 2

/-- A view conflict is not reported as one if the key of the fetch cannot be shown. -/
theorem fetch_conflict_lost_on_long_key :
    Reachable (fetchingInside longKey) ∧
      (fetchingInside longKey).control = .eval (.fetch 0 0 { key := longKey }) ∧
      (fetchingInside longKey).stack = [.release 0 .write] ∧
      ∃ f s, ViewConflict (fetchingInside longKey).session 0 longKey f ∧
        Unaided [.release 0 .write] (fetchingInside longKey) ⟨.raise f, [.release 0 .write], s⟩ ∧
        f.kind ≠ .borrow := by
  have hm : Reachable (fetchingInside longKey) :=
    (((Reachable.start ..).leads (leads_run ..)).move (.next rfl _)).leads (leads_run ..)
  obtain ⟨c, hcache, hwriting⟩ : ∃ c,
      (fetchingInside longKey).session.artifactCache 0 "main" = some c ∧ c.guard.writing = true :=
    ⟨_, rfl, rfl⟩
  have ho : (fetchingInside longKey).session.overrides[0]? = some ⟨"q", 1, 1⟩ := rfl
  obtain ⟨place, s, located, locates⟩ := hm.orderly.exists_locateArtifacts ho
  have hpart : (fetchingInside longKey).session.part 1 "main" = some 0 := rfl
  obtain rfl := locates.same hpart
  obtain ⟨c', found, hcache'⟩ := locates.exists_cache
  obtain rfl : c = c' := Option.some.inj (hcache.symm.trans hcache')
  have hconflict : ViewConflict (fetchingInside longKey).session 0 longKey
      (((fetchingInside longKey).session.request longKey).fault
        (.conflict c.label .read .write)) := ⟨c, hcache, hwriting, rfl⟩
  have hobstacle : c.guard.obstacle? .read = some .write := if_pos hwriting
  refine ⟨hm, rfl, rfl, _, _, hconflict,
    unaided_fetch_refused rfl ho located found (StableCache.contains_of_obstacle hobstacle), ?_⟩
  rw [hconflict.kind_eq, Memory.text?_longKey]
  decide

end Machine

end CheckedMemo
