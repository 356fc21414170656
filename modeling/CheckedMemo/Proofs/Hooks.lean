import CheckedMemo.Proofs.Paths
import CheckedMemo.Proofs.RecursiveBody
import CheckedMemo.Proofs.ThreadCaches

/-!
# What a hook does

A hook that is called looks its artifacts up.  If the key has one, the call is passed on; otherwise
the text of the key is made, the timing flag is read, and the code that extracts is called
(`silent_present`, `silent_absent`, `silent_extraction`).  What the extraction has given is
populated, and the call passed on (`silent_populating`).  Between these calls a hook calls no code.
-/

namespace CheckedMemo

namespace Frame

/-- Populates the artifact that an extraction has given. -/
def populating (place : Place) (call : Call) : Frame :=
  .bind fun artifact => .populate place call.key fun _ => .done artifact

/-- Passes a call on to the code behind a hook. -/
def passing (behind : Nat) (call : Call) : Frame := .bind fun _ => .invoke behind call

/-- The frame of a timed block, if it is timed. -/
def timing (label : String) (enabled : Bool) : List Frame := if enabled then [.timer label] else []

end Frame

/-- The session after the end of a timed block: if the block is timed, one event more, which tells
its label and how long it took. -/
def Session.timed (s : Session) (label : String) (enabled : Bool) : Session :=
  if enabled then
    s.log
      { logger := "pinned_memo.timing"
        level := .debug
        name := "block_timer"
        fields := [("label", .text label), ("elapsed_ms", .duration)] }
  else s

/-- The label of the timed block in which an override extracts. -/
def Override.blockLabel (o : Override) (text : String) : String := s!"{o.query} for {text}"

/-- Whether a cache takes a value for a key, or has one: no view is in the way, and the key is not
marked. -/
def StableCache.Accepts (c : StableCache) (k : Key) : Prop :=
  c.guard.obstacle? .read = none ∧
    (c.slots.get? k ≠ none ∨ c.guard.isBorrowed = false ∧ c.pending.get? k = none)

/-- What populating a key with a value makes of a cache that accepts the key. -/
structure StableCache.StoresAs (c : StableCache) (k : Key) (v : Value) (c' : StableCache) :
    Prop where
  guard : c'.guard = c.guard
  slots : c'.slots = c.slots.insertIfNew k v
  pending : c'.pending = c.pending

namespace Machine

variable {base stack : List Frame} {s s' : Session} {place : Place} {key v : Value} {k : Key}
  {c : StableCache} {yes no : Program} {f : Fault}

/-! ### Tests and requests -/

/-- A test of a cache decides how a program goes on. -/
theorem unaided_branch {b : Bool} (hb : base <:+ stack)
    (found : s.resources[place.id]? = some (.stable c))
    (hc : c.contains (s.request key) = .ok b) :
    Unaided base ⟨.eval (.branch (.contains place key) yes no), stack, s⟩
      ⟨.eval (if b then yes else no), stack, s⟩ := by
  refine (Unaided.eval rfl rfl rfl).trans ?_
  refine (Unaided.eval rfl rfl (step_contains found)).trans ?_
  rw [Resource.contains, hc]
  refine Unaided.resume rfl hb rfl ?_
  cases b <;> rfl

/-- A test that is refused ends a program. -/
theorem unaided_branch_refused (hb : base <:+ stack)
    (found : s.resources[place.id]? = some (.stable c))
    (hc : c.contains (s.request key) = .error f) :
    Unaided base ⟨.eval (.branch (.contains place key) yes no), stack, s⟩
      ⟨.raise f, stack, s.report f⟩ := by
  refine (Unaided.eval rfl rfl rfl).trans ?_
  refine (Unaided.eval rfl rfl (step_contains found)).trans ?_
  rw [Resource.contains, hc]
  exact Unaided.resume rfl hb rfl rfl

/-- Populating a key ends with nothing once the value has been got. -/
theorem silent_populated {w : Value} (hb : base <:+ stack) :
    Silent base ⟨.give w, .bind (fun _ => .done .null) :: stack, s⟩ ⟨.give .null, stack, s⟩ :=
  (Silent.resume rfl hb rfl rfl).trans (Silent.eval rfl rfl rfl)

/-- A cache that accepts a key is populated with a value. -/
theorem silent_populate (hb : base <:+ stack)
    (found : s.resources[place.id]? = some (.stable c)) (hkey : key.key = .ok k)
    (showable : k.isShowable = true) (accepts : c.Accepts k) :
    ∃ c' journal, c.StoresAs k v c' ∧
      Silent base ⟨.eval (.populate place key fun _ => .done v), stack, s⟩
        ⟨.give .null, stack, s.withCache place.id c' journal⟩ := by
  have hindex : (s.request key).index = .ok k := Request.index_eq_ok_iff.mpr hkey
  let frame : Frame := .bind fun _ => .done .null
  let asking : Machine := ⟨.eval (.get place key fun _ => .done v), frame :: stack, s⟩
  have hget : asking.step = getStable place.id c key (fun _ => .done v) (frame :: stack) s :=
    step_eq_getStable rfl found
  have hb' : base <:+ frame :: stack := hb.trans (List.suffix_cons ..)
  have hstart : Silent base ⟨.eval (.populate place key fun _ => .done v), stack, s⟩ asking :=
    Silent.eval rfl rfl rfl
  rw [getStable] at hget
  cases hslot : c.slots.get? k with
  | some w =>
    -- the value that is there stays
    rw [StableCache.start_eq_hit_iff.mpr ⟨accepts.1, ⟨k, hindex, hslot⟩, rfl⟩] at hget
    refine ⟨{ c with hits := c.hits + 1 }, s.journal, ⟨rfl, ?_, rfl⟩,
      (hstart.trans (Silent.eval rfl rfl hget)).trans (silent_populated hb)⟩
    rw [Table.insertIfNew, Table.contains, hslot]
    rfl
  | none =>
    obtain ⟨free, unmarked⟩ := accepts.2.resolve_left (fun h => h hslot)
    obtain ⟨shown, hshown⟩ := (s.spelled_isOk_iff hkey).mpr showable
    rw [StableCache.start_eq_miss_iff.mpr ⟨free, hindex, hslot, unmarked, hshown, rfl⟩] at hget
    let marked : StableCache := { c with pending := c.pending.insert k s.thread }
    let missed : Session := (s.setStable place.id marked).log (.cacheMiss c.label shown)
    have hdeposit : (⟨.give v, .computing place.id shown k :: frame :: stack, missed⟩ :
        Machine).step =
          ⟨.give v, frame :: stack, s.withCache place.id (marked.deposit k v) missed.journal⟩ :=
      step_deposit (c := marked) found free hslot shown v (frame :: stack) missed.journal
    have hcomputed : Silent base ⟨.eval (.done v), .computing place.id shown k :: frame :: stack,
        missed⟩ ⟨.give v, frame :: stack,
          s.withCache place.id (marked.deposit k v) missed.journal⟩ :=
      (Silent.eval rfl rfl rfl).trans (Silent.resume rfl hb' rfl hdeposit)
    refine ⟨marked.deposit k v, missed.journal, ⟨rfl, rfl, Table.erase_insert unmarked _⟩, ?_⟩
    exact ((hstart.trans (Silent.eval rfl rfl hget)).trans hcomputed).trans (silent_populated hb)

/-- A cache that refuses a key is not populated. -/
theorem silent_populate_refused (hb : base <:+ stack)
    (found : s.resources[place.id]? = some (.stable c))
    (refused : c.start s.thread (s.request key) = .error f) :
    Silent base ⟨.eval (.populate place key fun _ => .done v), stack, s⟩
      ⟨.raise f, stack, s.report f⟩ := by
  let frame : Frame := .bind fun _ => .done .null
  let asking : Machine := ⟨.eval (.get place key fun _ => .done v), frame :: stack, s⟩
  have hget : asking.step = getStable place.id c key (fun _ => .done v) (frame :: stack) s :=
    step_eq_getStable rfl found
  rw [getStable, refused] at hget
  have hstart : Silent base ⟨.eval (.populate place key fun _ => .done v), stack, s⟩ asking :=
    Silent.eval rfl rfl rfl
  exact (hstart.trans (Silent.eval rfl rfl hget)).trans (Silent.resume rfl hb rfl rfl)

/-! ### Hooks -/

variable {o : Override} {id behind : Nat} {call : Call} {text : Spelled} {b : Bool}

/-- At `m` a hook of an override is about to be called. -/
structure Hooking (id behind : Nat) (o : Override) (call : Call) (m : Machine) : Prop where
  calls : ∃ code, m.control = .eval (.invoke code call) ∧
    m.session.code[code]? = some (.hook id behind)
  override : m.session.overrides[id]? = some o

theorem Hooking.step_eq {m : Machine} (h : Hooking id behind o call m) :
    m.step = ⟨.eval (o.hook id behind call), m.stack, m.session⟩ := by
  obtain ⟨⟨code, control, found⟩, ho⟩ := h
  rw [step, control]
  show invoke code call m.stack m.session = _
  rw [invoke, found]
  dsimp only
  rw [ho]

theorem Hooking.suffix_step {m : Machine} (h : Hooking id behind o call m) :
    m.stack <:+ m.step.stack := by
  have hstack : m.step.stack = m.stack := by rw [h.step_eq]
  exact hstack ▸ List.suffix_rfl

/-- The artifacts of the current thread are found, or made. -/
theorem Hooking.exists_located {m : Machine} (hm : Reachable m) (h : Hooking id behind o call m) :
    ∃ place s c, m.session.locateArtifacts id = .ok (place, s) ∧
      m.session.Locates o.artifacts place s ∧ s.resources[place.id]? = some (.stable c) ∧
      m.session.artifactCache id m.session.thread = some c := by
  obtain ⟨place, s, located, locates⟩ := hm.orderly.exists_locateArtifacts h.override
  obtain ⟨c, found, hcache⟩ := locates.exists_cache
  refine ⟨place, s, c, located, locates, found, ?_⟩
  rw [Session.artifactCache, h.override, Option.bind_some, hcache]

/-- A hook looks for the artifacts of the current thread first. -/
theorem silent_hook (located : s.locateArtifacts id = .ok (place, s')) :
    Silent base ⟨.eval (o.hook id behind call), base, s⟩
      ⟨.eval (.branch (.contains place call.key) (.done .null)
          (.bind (o.extraction call) fun artifact =>
            .populate place call.key fun _ => .done artifact)),
        .passing behind call :: base, s'⟩ := by
  have hreach : (⟨.eval (o.capture id call), .passing behind call :: base, s⟩ : Machine).step =
      ⟨.eval (.branch (.contains place call.key) (.done .null)
          (.bind (o.extraction call) fun artifact =>
            .populate place call.key fun _ => .done artifact)),
        .passing behind call :: base, s'⟩ := by
    rw [step]
    dsimp only [begin, Override.capture]
    rw [show s.locate (.artifacts id) = .ok (place, s') from located]
  exact (Silent.eval rfl rfl rfl).trans (Silent.eval rfl rfl hreach)

/-- A call for a key that has its artifact is passed on. -/
theorem silent_present (located : s.locateArtifacts id = .ok (place, s'))
    (found : s'.resources[place.id]? = some (.stable c))
    (present : c.contains (s'.request call.key) = .ok true) :
    Silent base ⟨.eval (o.hook id behind call), base, s⟩
      ⟨.eval (.invoke behind call), base, s'⟩ := by
  refine (silent_hook located).trans ?_
  refine (unaided_branch (List.suffix_cons ..) found present).silent.trans ?_
  exact (Silent.eval rfl rfl rfl).trans (Silent.resume rfl List.suffix_rfl rfl rfl)

/-- A call whose key cannot be looked up ends there. -/
theorem silent_refused (located : s.locateArtifacts id = .ok (place, s'))
    (found : s'.resources[place.id]? = some (.stable c))
    (refused : c.contains (s'.request call.key) = .error f) :
    Silent base ⟨.eval (o.hook id behind call), base, s⟩ ⟨.raise f, base, s'.report f⟩ := by
  refine (silent_hook located).trans ?_
  refine (unaided_branch_refused (List.suffix_cons ..) found refused).silent.trans ?_
  exact Silent.resume rfl List.suffix_rfl rfl rfl

/-- For a key that has no artifact one is to be extracted. -/
theorem silent_absent (located : s.locateArtifacts id = .ok (place, s'))
    (found : s'.resources[place.id]? = some (.stable c))
    (absent : c.contains (s'.request call.key) = .ok false) :
    Silent base ⟨.eval (o.hook id behind call), base, s⟩
      ⟨.eval (o.extraction call), .populating place call :: .passing behind call :: base, s'⟩ := by
  refine (silent_hook located).trans ?_
  refine (unaided_branch (List.suffix_cons ..) found absent).silent.trans ?_
  exact Silent.eval rfl rfl rfl

theorem step_spell : (⟨.eval (.perform (.spell v)), stack, s⟩ : Machine).step =
    reply stack ((s.request v).spelled.map fun key => .text key.text, s) := rfl

/-- The code that extracts is called in a block that is timed if the flag says so. -/
theorem silent_extraction (hb : base <:+ stack) (hspelled : (s.request call.key).spelled = .ok text)
    (hflag : s.environment.timing = .ok b) :
    Silent base ⟨.eval (o.extraction call), stack, s⟩
      ⟨.eval (.invoke o.extract call), Frame.timing (o.blockLabel text.text) b ++ stack, s⟩ := by
  refine (Silent.eval rfl rfl rfl).trans ?_
  refine (Silent.eval rfl rfl step_spell).trans ?_
  rw [hspelled]
  refine (Silent.resume rfl hb rfl rfl).trans (Silent.eval rfl rfl ?_)
  show time (o.blockLabel text.text) none (.invoke o.extract call) stack s = _
  rw [time, Option.elim_none, hflag]
  cases b <;> rfl

/-- Nothing is extracted for a key that cannot be shown. -/
theorem silent_extraction_unspelled (hb : base <:+ stack)
    (hspelled : (s.request call.key).spelled = .error f) :
    Silent base ⟨.eval (o.extraction call), stack, s⟩ ⟨.raise f, stack, s.report f⟩ := by
  refine (Silent.eval rfl rfl rfl).trans ?_
  refine (Silent.eval rfl rfl step_spell).trans ?_
  rw [hspelled]
  exact Silent.resume rfl hb rfl rfl

/-- Nothing is extracted while the timing flag is invalid. -/
theorem silent_extraction_unflagged (hb : base <:+ stack)
    (hspelled : (s.request call.key).spelled = .ok text) (hflag : s.environment.timing = .error f) :
    Silent base ⟨.eval (o.extraction call), stack, s⟩ ⟨.raise f, stack, s.report f⟩ := by
  refine (Silent.eval rfl rfl rfl).trans ?_
  refine (Silent.eval rfl rfl step_spell).trans ?_
  rw [hspelled]
  refine (Silent.resume rfl hb rfl rfl).trans (Silent.eval rfl rfl ?_)
  show time (o.blockLabel text.text) none (.invoke o.extract call) stack s = _
  rw [time, Option.elim_none, hflag]
  rfl

/-- The outcome of a timed block is passed on. -/
theorem silent_timing (outcome : Except Fault Value) (hb : base <:+ stack) (label : String)
    (b : Bool) :
    Silent base ⟨.ofOutcome outcome, Frame.timing label b ++ stack, s⟩
      ⟨.ofOutcome outcome, stack, s.timed label b⟩ := by
  cases b with
  | false => exact .refl _
  | true => cases outcome <;> exact Silent.resume rfl hb rfl rfl

/-- The failure of an extraction ends the call. -/
theorem silent_failed (label : String) (b : Bool) :
    Silent base ⟨.raise f, Frame.timing label b ++ .populating place call :: .passing behind call ::
        base, s⟩
      ⟨.raise f, base, s.timed label b⟩ := by
  have hb : base <:+ .passing behind call :: base := List.suffix_cons ..
  refine (silent_timing (.error f) (hb.trans (List.suffix_cons ..)) label b).trans ?_
  exact (Silent.resume rfl hb rfl rfl).trans (Silent.resume rfl List.suffix_rfl rfl rfl)

/-- What an extraction has given is about to be populated. -/
theorem silent_given (label : String) (b : Bool) :
    Silent base ⟨.give v, Frame.timing label b ++ .populating place call :: .passing behind call ::
        base, s⟩
      ⟨.eval (.populate place call.key fun _ => .done v), .passing behind call :: base,
        s.timed label b⟩ := by
  have hb : base <:+ .passing behind call :: base := List.suffix_cons ..
  refine (silent_timing (.ok v) (hb.trans (List.suffix_cons ..)) label b).trans ?_
  exact Silent.resume rfl hb rfl rfl

end Machine

end CheckedMemo
