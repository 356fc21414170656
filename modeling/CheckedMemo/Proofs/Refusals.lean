import CheckedMemo.Proofs.Borrowing

/-!
# The order in which requests are refused

A cache decides about a request before anything else happens, and a `Verdict` is what it decides.
The order is in the definitions of verdicts: views that are in the way come first, then a key that
is none, then the stored values (`Verdict.ofLookup`), and for a key that has to be marked views once
more and then marks (`Verdict.toMark`).  What a machine does by a verdict is `Machine.Obeys`: a
refused request is over at once, and nothing has changed but the journal (`Machine.Rejects`).

The main statement is `refused_in_order`.  The fault of a refused request shows its key, so where
the key cannot be shown it is reported instead (`Machine.Declines`), and no computation is called
for such a key (`borrow_fault_lost_on_long_key`).
-/

namespace CheckedMemo

/-! ### Verdicts -/

/-- What is decided about a request to a cache. -/
inductive Verdict where
  /-- Some view is in the way. -/
  | conflict
  /-- What is used as a key has none. -/
  | unhashable (what : Unhashable)
  /-- There is a stored value. -/
  | found (v : Value)
  /-- There is no stored value, and the key is marked for a thread. -/
  | marked (owner : Thread)
  /-- There is no stored value. -/
  | absent (k : Key)

namespace Verdict

/-- The verdict on a key that is looked up, which a view may be in the way of. -/
def ofLookup (blocked : Prop) [Decidable blocked] (slots : Table Key Value) (key : Value) :
    Verdict :=
  if blocked then .conflict
  else
    match key.key with
    | .error u => .unhashable u
    | .ok k => (slots.get? k).elim (.absent k) .found

/-- The verdict on a key that is marked after it was looked up, unless it has a value. -/
def toMark (blocked : Prop) [Decidable blocked] (pending : Table Key Thread) : Verdict → Verdict
  | .absent k => if blocked then .conflict else (pending.get? k).elim (.absent k) .marked
  | verdict => verdict

/-- Verdicts on look-ups, one for each way in which a request can differ. -/
theorem ofLookup_cases {motive : Verdict → Prop} (blocked : Prop) [Decidable blocked]
    (slots : Table Key Value) (key : Value) (conflict : blocked → motive .conflict)
    (unhashable : ¬blocked → ∀ u, key.key = .error u → motive (.unhashable u))
    (found : ¬blocked → ∀ k v, key.key = .ok k → slots.get? k = some v → motive (.found v))
    (absent : ¬blocked → ∀ k, key.key = .ok k → slots.get? k = none → motive (.absent k)) :
    motive (ofLookup blocked slots key) := by
  unfold ofLookup
  split
  · rename_i hblocked
    exact conflict hblocked
  · rename_i hfree
    split
    · rename_i u hkey
      exact unhashable hfree u hkey
    · rename_i k hkey
      cases hslot : slots.get? k with
      | some v => exact found hfree k v hkey hslot
      | none => exact absent hfree k hkey hslot

variable {blocked : Prop} [Decidable blocked] {slots : Table Key Value} {key : Value} {k : Key}

theorem key_of_absent (h : ofLookup blocked slots key = .absent k) : key.key = .ok k := by
  unfold ofLookup at h
  split at h
  · cases h
  · split at h
    · cases h
    · rename_i j hkey
      cases hslot : slots.get? j with
      | some v =>
        rw [hslot] at h
        cases h
      | none =>
        rw [hslot] at h
        cases h
        exact hkey

theorem absent_of_toMark {pending : Table Key Thread} {verdict : Verdict}
    (h : verdict.toMark blocked pending = .absent k) : verdict = .absent k := by
  cases verdict with
  | conflict | unhashable | found | marked => cases h
  | absent j =>
    rw [toMark] at h
    split at h
    · cases h
    · cases hmark : pending.get? j with
      | some owner =>
        rw [hmark] at h
        cases h
      | none =>
        rw [hmark] at h
        exact h

end Verdict

/-! ### Caches -/

section

variable {r : Request} {k : Key} {u : Unhashable}

namespace StableCache

variable {c : StableCache}

theorem contains_of_unhashable (hfree : c.guard.obstacle? .read = none)
    (hkey : r.key.key = .error u) : c.contains r = .error (.unhashable u) := by
  rw [contains, find_of_unhashable hfree hkey]
  rfl

theorem contains_eq (hfree : c.guard.obstacle? .read = none) (hk : r.index = .ok k) :
    c.contains r = .ok (c.slots.get? k).isSome := by
  rw [contains, find_eq_ok_iff.mpr ⟨hfree, k, hk, rfl⟩]
  rfl

theorem peek_of_unhashable (hfree : c.guard.obstacle? .read = none)
    (hkey : r.key.key = .error u) : c.peek r = .error (.unhashable u) := by
  rw [peek, find_of_unhashable hfree hkey]
  rfl

theorem peek_of_absent (hfree : c.guard.obstacle? .read = none) (hk : r.index = .ok k)
    (absent : c.slots.get? k = none) : c.peek r = .error (r.fault (.absent c.label)) := by
  rw [peek, find_eq_ok_iff.mpr ⟨hfree, k, hk, absent⟩]
  rfl

end StableCache

namespace ValueCache

variable {c : ValueCache}

theorem start_of_unhashable (hfree : c.guard.obstacle? .write = none)
    (hkey : r.key.key = .error u) : c.start r = .error (.unhashable u) := by
  rw [start, Guard.allow_of_free hfree, Request.index_of_unhashable hkey]
  rfl

/-- A key that cannot be shown is not computed. -/
theorem start_of_unshown (hfree : c.guard.obstacle? .write = none) (hk : r.index = .ok k)
    (absent : c.slots.get? k = none) (unshown : r.spelled = .error .unspellable) :
    c.start r = .error .unspellable := by
  rw [start, Guard.allow_of_free hfree, hk, ok_bind, ok_bind, absent]
  dsimp only
  rw [unshown]
  rfl

theorem contains_of_unhashable (hfree : c.guard.obstacle? .read = none)
    (hkey : r.key.key = .error u) : c.contains r = .error (.unhashable u) := by
  rw [contains, Guard.allow_of_free hfree, Request.index_of_unhashable hkey]
  rfl

theorem contains_eq (hfree : c.guard.obstacle? .read = none) (hk : r.index = .ok k) :
    c.contains r = .ok (c.slots.get? k).isSome := by
  rw [contains, Guard.allow_of_free hfree, hk]
  rfl

theorem openStored_of_unhashable (hfree : c.guard.obstacle? .read = none)
    (hkey : r.key.key = .error u) : c.openStored r = .error (.unhashable u) := by
  rw [openStored, Guard.allow_of_free hfree, Request.index_of_unhashable hkey]
  rfl

theorem openStored_of_absent (hfree : c.guard.obstacle? .read = none) (hk : r.index = .ok k)
    (absent : c.slots.get? k = none) : c.openStored r = .error (r.fault (.absent c.label)) := by
  rw [openStored, Guard.allow_of_free hfree, hk, ok_bind, ok_bind, absent]

end ValueCache

/-- Membership tests are the same for both sorts of caches. -/
theorem Resource.contains_of_unhashable {x : Resource} (cache : x.isCache = true)
    (hfree : x.guard.obstacle? .read = none) (hkey : r.key.key = .error u) :
    x.contains r = .error (.unhashable u) := by
  cases x with
  | cell => cases cache
  | stable c => exact StableCache.contains_of_unhashable hfree hkey
  | value c => exact ValueCache.contains_of_unhashable hfree hkey

theorem Resource.contains_eq {x : Resource} (cache : x.isCache = true)
    (hfree : x.guard.obstacle? .read = none) (hk : r.index = .ok k) :
    x.contains r = .ok (x.slots.get? k).isSome := by
  cases x with
  | cell => cases cache
  | stable c => exact StableCache.contains_eq hfree hk
  | value c => exact ValueCache.contains_eq hfree hk

theorem Resource.size_eq {x : Resource} (cache : x.isCache = true)
    (hfree : x.guard.obstacle? .read = none) (r : Request) : x.size r = .ok x.slots.size := by
  cases x with
  | cell => cases cache
  | stable c =>
    have hguard : c.guard.obstacle? .read = none := hfree
    show c.size r = _
    rw [StableCache.size, Guard.allow_of_free hguard]
    rfl
  | value c =>
    have hguard : c.guard.obstacle? .read = none := hfree
    show c.size r = _
    rw [ValueCache.size, Guard.allow_of_free hguard]
    rfl

end

/-! ### Refusals -/

namespace Machine

variable {m : Machine} {place : Place} {key : Value} {f : Fault}

/-- What is asked at `m` is over at once with a fault, and nothing has changed but the journal. -/
def Rejects (m : Machine) (f : Fault) : Prop :=
  m.step = refuse f m.stack m.session ∧ m.step.session.shared = m.session.shared

/-- What is asked at `m` about a key is rejected with a fault of a kind.  The fault shows the key;
where the key cannot be shown, that is the fault. -/
def Declines (m : Machine) (key : Value) (kind : Kind) : Prop :=
  ∃ f, m.Rejects f ∧
    f.kind = if (m.session.memory.text? key).isSome then kind else .badValue

/-- What happens to a request about a key by the verdict on it. -/
def Obeys (m : Machine) (key : Value) (found : Value → Prop) (absent : Key → Prop) :
    Verdict → Prop
  | .conflict => m.Declines key .borrow
  | .unhashable u => m.Rejects (.unhashable u)
  | .found v => found v
  | .marked owner => m.Declines key (if owner = m.session.thread then .reentrant else .borrow)
  | .absent k => absent k

/-- What happens to a key that has to be computed: the computation is called, unless the key cannot
be shown. -/
def Misses (m : Machine) (called : Key → Prop) (k : Key) : Prop :=
  if k.isShowable = true then called k else m.Rejects .unspellable

theorem rejects_of_step (h : m.step = refuse f m.stack m.session) : m.Rejects f := by
  refine ⟨h, ?_⟩
  rw [h]
  exact Session.shared_report ..

theorem declines_of_step {cause : Spelled → Fault} {kind : Kind}
    (h : m.step = refuse ((m.session.request key).fault cause) m.stack m.session)
    (hcause : ∀ shown, (cause shown).kind = kind) : m.Declines key kind := by
  refine ⟨_, rejects_of_step h, ?_⟩
  rcases (m.session.request key).fault_cases cause with
    ⟨shown, -, htext, hfault⟩ | ⟨htext, hfault⟩
  · rw [hfault, hcause, show m.session.memory.text? key = some shown.text from htext]
    rfl
  · rw [hfault, show m.session.memory.text? key = none from htext]
    rfl

theorem Reachable.declines_of_blocked (hm : Reachable m) {id : Nat} {r : Resource} {mode : Mode}
    {p : Program} (found : m.session.resources[id]? = some r) (control : m.control = .eval p)
    (hdemands : Demands m.session id mode key p) (hblocked : m.Blocked id mode) :
    m.Declines key .borrow := by
  obtain ⟨active, hactive⟩ :=
    Option.ne_none_iff_exists'.mp (((hm.faithful found).obstacle?_ne_none_iff mode).mpr hblocked)
  have hstep : m.step = begin p m.stack m.session := by
    rw [step, control]
  exact declines_of_step (hstep.trans (hdemands.begin_of_obstacle found hactive m.stack))
    fun _ => rfl

theorem Reachable.obstacle?_of_not_blocked (hm : Reachable m) {id : Nat} {r : Resource}
    {mode : Mode} (found : m.session.resources[id]? = some r) (hfree : ¬m.Blocked id mode) :
    r.guard.obstacle? mode = none := by
  by_contra hne
  exact hfree (((hm.faithful found).obstacle?_ne_none_iff mode).mp hne)

/-- Nothing is computed for what is rejected. -/
theorem Rejects.not_starts (h : m.Rejects f) (x : Task) : ¬Starts m m.step x := by
  rintro ⟨⟨_, _, _, -, -, -, hcalled⟩, -⟩
  rw [h.1] at hcalled
  cases hcalled

theorem Declines.not_starts {kind : Kind} (h : m.Declines key kind) (x : Task) :
    ¬Starts m m.step x := by
  obtain ⟨f, hf, -⟩ := h
  exact hf.not_starts x

/-- A computation is called exactly for a key that the verdict leaves and that can be shown. -/
theorem Obeys.starts_iff {found : Value → Prop} {called : Key → Prop} {verdict : Verdict}
    (h : m.Obeys key found (m.Misses called) verdict)
    (hfound : ∀ v, found v → ∀ x, ¬Starts m m.step x)
    (hcalled : ∀ k, verdict = .absent k → called k → ∃ x, Starts m m.step x) :
    (∃ x, Starts m m.step x) ↔ ∃ k, verdict = .absent k ∧ k.isShowable = true := by
  have none_of (hnone : ∀ x, ¬Starts m m.step x)
      (hverdict : ∀ k, verdict = .absent k → k.isShowable ≠ true) :
      (∃ x, Starts m m.step x) ↔ ∃ k, verdict = .absent k ∧ k.isShowable = true :=
    ⟨fun ⟨x, hx⟩ => absurd hx (hnone x), fun ⟨k, hk, hshowable⟩ => absurd hshowable (hverdict k hk)⟩
  cases verdict with
  | conflict | marked owner => exact none_of (Declines.not_starts h) fun _ hk => nomatch hk
  | unhashable u => exact none_of (Rejects.not_starts h) fun _ hk => nomatch hk
  | found v => exact none_of (hfound v h) fun _ hk => nomatch hk
  | absent k =>
    have hmisses : m.Misses called k := h
    unfold Misses at hmisses
    split at hmisses
    · rename_i hshowable
      exact ⟨fun _ => ⟨k, rfl, hshowable⟩, fun _ => hcalled k rfl hmisses⟩
    · rename_i hunshown
      refine none_of hmisses.not_starts ?_
      rintro j ⟨⟩
      exact hunshown

/-! ### Requests to stable caches -/

section

variable {c : StableCache} {compute : Value → Program}

/-- The verdict on a request to a stable cache. -/
def stableVerdict (m : Machine) (id : Nat) (c : StableCache) (key : Value) : Verdict :=
  (Verdict.ofLookup (0 < m.held ⟨id, .write⟩) c.slots key).toMark (0 < m.held ⟨id, .read⟩) c.pending

/-- A stable cache gives a stored value out and counts a hit. -/
def HitsStable (m : Machine) (id : Nat) (c : StableCache) (v : Value) : Prop :=
  m.step = ⟨.give v, m.stack, m.session.setStable id { c with hits := c.hits + 1 }⟩

/-- A stable cache marks a key and has its value computed. -/
def CallsStable (m : Machine) (id : Nat) (c : StableCache) (key : Value)
    (compute : Value → Program) (k : Key) : Prop :=
  m.step.control = .eval (compute key) ∧
    (∃ shown, m.step.stack = .computing id shown k :: m.stack) ∧
    m.step.session.shared = m.session.shared.set id
      (.stable { c with pending := c.pending.insert k m.session.thread })

theorem Reachable.missesStable (hm : Reachable m) {k : Key}
    (found : m.session.resources[place.id]? = some (.stable c))
    (control : m.control = .eval (.get place key compute)) (hkey : key.key = .ok k)
    (free : ¬m.Blocked place.id .write) (absent : c.slots.get? k = none)
    (unmarked : c.pending.get? k = none) :
    m.Misses (m.CallsStable place.id c key compute) k := by
  have hstep := step_eq_getStable control found
  have hindex : (m.session.request key).index = .ok k := Request.index_eq_ok_iff.mpr hkey
  have hborrowed : c.guard.isBorrowed = false :=
    Guard.not_isBorrowed_of_free (hm.obstacle?_of_not_blocked found free)
  unfold Misses
  split
  · rename_i hshowable
    obtain ⟨shown, hshown⟩ := (m.session.spelled_isOk_iff hkey).mpr hshowable
    unfold CallsStable
    rw [hstep, getStable,
      StableCache.start_eq_miss_iff.mpr ⟨hborrowed, hindex, absent, unmarked, hshown, rfl⟩]
    exact ⟨rfl, ⟨shown, rfl⟩, rfl⟩
  · rename_i hunshown
    rw [Bool.not_eq_true] at hunshown
    refine rejects_of_step ?_
    rw [hstep, getStable, StableCache.start_of_unshown hborrowed hindex absent unmarked
      (Session.spelled_eq_error hkey hunshown)]

/-- A request to a stable cache goes by the verdict on it. -/
theorem Reachable.obeys_getStable (hm : Reachable m)
    (found : m.session.resources[place.id]? = some (.stable c))
    (control : m.control = .eval (.get place key compute)) :
    m.Obeys key (m.HitsStable place.id c) (m.Misses (m.CallsStable place.id c key compute))
      (m.stableVerdict place.id c key) := by
  have hstep := step_eq_getStable control found
  refine Verdict.ofLookup_cases (motive := fun d => m.Obeys key (m.HitsStable place.id c)
    (m.Misses (m.CallsStable place.id c key compute)) (d.toMark _ c.pending)) _ _ _ ?_ ?_ ?_ ?_
  · intro hblocked
    exact hm.declines_of_blocked found control (.look rfl found key compute) hblocked
  · intro hwrite u hkey
    refine rejects_of_step ?_
    have hread : c.guard.obstacle? .read = none := hm.obstacle?_of_not_blocked found hwrite
    rw [hstep, getStable, StableCache.start_of_unhashable hread hkey]
  · intro hwrite k v hkey hslot
    have hread : c.guard.obstacle? .read = none := hm.obstacle?_of_not_blocked found hwrite
    have hindex : (m.session.request key).index = .ok k := Request.index_eq_ok_iff.mpr hkey
    show m.step = _
    rw [hstep, getStable, StableCache.start_eq_hit_iff.mpr ⟨hread, ⟨k, hindex, hslot⟩, rfl⟩]
  · intro hwrite k hkey hslot
    have hread : c.guard.obstacle? .read = none := hm.obstacle?_of_not_blocked found hwrite
    -- the key has to be marked, and needs a write view for that
    by_cases hreading : 0 < m.held ⟨place.id, .read⟩
    · rw [Verdict.toMark, if_pos hreading]
      exact hm.declines_of_blocked found control (.mark rfl found hread hkey hslot compute)
        (.inl hreading)
    · rw [Verdict.toMark, if_neg hreading]
      have hfree : ¬m.Blocked place.id .write := fun h => h.elim hreading hwrite
      cases hmark : c.pending.get? k with
      | none => exact hm.missesStable found control hkey hfree hslot hmark
      | some owner =>
        have hborrowed : c.guard.isBorrowed = false :=
          Guard.not_isBorrowed_of_free (hm.obstacle?_of_not_blocked found hfree)
        have hindex : (m.session.request key).index = .ok k := Request.index_eq_ok_iff.mpr hkey
        have hrefused :=
          hstep.trans (by rw [getStable, StableCache.start_of_marked hborrowed hindex hslot hmark])
        refine declines_of_step hrefused fun shown => ?_
        split <;> rfl

theorem starts_of_callsStable {k : Key} (control : m.control = .eval (.get place key compute))
    (hkey : key.key = .ok k) (h : m.CallsStable place.id c key compute k) :
    ∃ x, Starts m m.step x := by
  obtain ⟨hcalled, ⟨shown, hstack⟩, -⟩ := h
  exact ⟨⟨place.id, k⟩, ⟨place, key, compute, control, rfl, hkey, hcalled⟩, _, _, hstack, rfl,
    List.suffix_rfl⟩

theorem HitsStable.not_starts {v : Value} (h : m.HitsStable place.id c v) (x : Task) :
    ¬Starts m m.step x := by
  rintro ⟨⟨_, _, _, -, -, -, hcalled⟩, -⟩
  rw [show m.step = _ from h] at hcalled
  cases hcalled

end

/-! ### Requests to value caches -/

section

variable {c : ValueCache} {compute : Value → Program}

/-- The verdict on a request to a value cache. -/
def valueVerdict (m : Machine) (id : Nat) (c : ValueCache) (key : Value) : Verdict :=
  .ofLookup (0 < m.held ⟨id, .read⟩ ∨ 0 < m.held ⟨id, .write⟩) c.slots key

/-- A value cache counts a hit and copies a stored value inside a write view. -/
def HitsValue (m : Machine) (id : Nat) (c : ValueCache) (v : Value) : Prop :=
  m.step = ⟨.eval (.copy v), .release id .write :: m.stack,
    m.session.setValue id { c.acquire .write with hits := c.hits + 1 }⟩

/-- A value cache has the value of a key computed inside a write view. -/
def CallsValue (m : Machine) (id : Nat) (c : ValueCache) (key : Value)
    (compute : Value → Program) (k : Key) : Prop :=
  m.step.control = .eval (compute key) ∧
    m.step.stack = .storing id k :: .release id .write :: m.stack ∧
    m.step.session.shared = m.session.shared.set id (.value (c.acquire .write))

theorem Reachable.missesValue (hm : Reachable m) {k : Key}
    (found : m.session.resources[place.id]? = some (.value c))
    (control : m.control = .eval (.get place key compute)) (hkey : key.key = .ok k)
    (free : ¬m.Blocked place.id .write) (absent : c.slots.get? k = none) :
    m.Misses (m.CallsValue place.id c key compute) k := by
  have hstep := step_eq_getValue control found
  have hindex : (m.session.request key).index = .ok k := Request.index_eq_ok_iff.mpr hkey
  have hwrite : c.guard.obstacle? .write = none := hm.obstacle?_of_not_blocked found free
  unfold Misses
  split
  · rename_i hshowable
    obtain ⟨shown, hshown⟩ := (m.session.spelled_isOk_iff hkey).mpr hshowable
    have hmiss := ValueCache.start_eq_miss_iff.mpr
      ⟨Guard.not_isBorrowed_of_free hwrite, hindex, absent, hshown, rfl⟩
    unfold CallsValue
    rw [hstep, getValue, hmiss]
    exact ⟨rfl, rfl, rfl⟩
  · rename_i hunshown
    rw [Bool.not_eq_true] at hunshown
    refine rejects_of_step ?_
    rw [hstep, getValue, ValueCache.start_of_unshown hwrite hindex absent
      (Session.spelled_eq_error hkey hunshown)]

/-- A request to a value cache goes by the verdict on it. -/
theorem Reachable.obeys_getValue (hm : Reachable m)
    (found : m.session.resources[place.id]? = some (.value c))
    (control : m.control = .eval (.get place key compute)) :
    m.Obeys key (m.HitsValue place.id c) (m.Misses (m.CallsValue place.id c key compute))
      (m.valueVerdict place.id c key) := by
  have hstep := step_eq_getValue control found
  refine Verdict.ofLookup_cases (motive := fun d => m.Obeys key (m.HitsValue place.id c)
    (m.Misses (m.CallsValue place.id c key compute)) d) _ _ _ ?_ ?_ ?_ ?_
  · intro hblocked
    exact hm.declines_of_blocked found control (.hold rfl found key compute) hblocked
  · intro hfree u hkey
    refine rejects_of_step ?_
    have hwrite : c.guard.obstacle? .write = none := hm.obstacle?_of_not_blocked found hfree
    rw [hstep, getValue, ValueCache.start_of_unhashable hwrite hkey]
  · intro hfree k v hkey hslot
    have hwrite : c.guard.obstacle? .write = none := hm.obstacle?_of_not_blocked found hfree
    have hindex : (m.session.request key).index = .ok k := Request.index_eq_ok_iff.mpr hkey
    have hhit := ValueCache.start_eq_hit_iff.mpr
      ⟨Guard.not_isBorrowed_of_free hwrite, ⟨k, hindex, hslot⟩, rfl⟩
    show m.step = _
    rw [hstep, getValue, hhit]
  · intro hfree k hkey hslot
    exact hm.missesValue found control hkey hfree hslot

theorem starts_of_callsValue {k : Key} (control : m.control = .eval (.get place key compute))
    (hkey : key.key = .ok k) (h : m.CallsValue place.id c key compute k) :
    ∃ x, Starts m m.step x := by
  obtain ⟨hcalled, hstack, -⟩ := h
  exact ⟨⟨place.id, k⟩, ⟨place, key, compute, control, rfl, hkey, hcalled⟩, _, _, hstack, rfl,
    List.suffix_cons ..⟩

/-- What runs after a hit is the copying of the value, and no frame waits for a computation. -/
theorem HitsValue.not_starts {v : Value} (h : m.HitsValue place.id c v) (x : Task) :
    ¬Starts m m.step x := by
  rintro ⟨-, frame, rest, hstack, htask, -⟩
  rw [show m.step = _ from h] at hstack
  cases hstack
  cases htask

end

/-! ### Looking at caches -/

section

variable {r : Resource}

/-- The verdict on a request to look at a cache of either sort. -/
def lookVerdict (m : Machine) (id : Nat) (r : Resource) (key : Value) : Verdict :=
  .ofLookup (0 < m.held ⟨id, .write⟩) r.slots key

/-- A cache shows a stored value: a stable cache gives it out, and a value cache copies it inside a
read view. -/
def Shows (m : Machine) (id : Nat) (v : Value) : Resource → Prop
  | .stable _ => m.step = ⟨.give v, m.stack, m.session⟩
  | .value c => m.step =
      ⟨.eval (.copy v), .release id .read :: m.stack, m.session.setValue id (c.acquire .read)⟩
  | .cell .. => False

theorem step_eq_peek (control : m.control = .eval (.peek place key)) :
    m.step = peek place.id key m.stack m.session := by
  rw [step, control]
  rfl

/-- A peek at a stable cache is answered by the cache. -/
theorem step_peek_stable {c : StableCache}
    (found : m.session.resources[place.id]? = some (.stable c))
    (control : m.control = .eval (.peek place key)) :
    m.step = reply m.stack (c.peek (m.session.request key), m.session) := by
  rw [step_eq_peek control, peek, found]

theorem Reachable.obeys_peek (hm : Reachable m)
    (found : m.session.resources[place.id]? = some r) (cache : r.isCache = true)
    (control : m.control = .eval (.peek place key)) :
    m.Obeys key (m.Shows place.id · r) (fun _ => m.Declines key .missingKey)
      (m.lookVerdict place.id r key) := by
  refine Verdict.ofLookup_cases (motive := fun d => m.Obeys key (m.Shows place.id · r)
    (fun _ => m.Declines key .missingKey) d) _ _ _ ?_ ?_ ?_ ?_
  · intro hblocked
    exact hm.declines_of_blocked found control (.peek rfl found cache key) hblocked
  · intro hfree u hkey
    have hread : r.guard.obstacle? .read = none := hm.obstacle?_of_not_blocked found hfree
    refine rejects_of_step ?_
    cases r with
    | cell => cases cache
    | stable c =>
      rw [step_peek_stable found control, StableCache.peek_of_unhashable hread hkey]
      rfl
    | value c =>
      rw [step_eq_peek control, peek, found]
      dsimp only
      rw [ValueCache.openStored_of_unhashable hread hkey]
  · intro hfree k v hkey hslot
    have hread : r.guard.obstacle? .read = none := hm.obstacle?_of_not_blocked found hfree
    have hindex : (m.session.request key).index = .ok k := Request.index_eq_ok_iff.mpr hkey
    cases r with
    | cell => cases cache
    | stable c =>
      show m.step = _
      rw [step_peek_stable found control,
        StableCache.peek_eq_ok_iff.mpr ⟨hread, k, hindex, hslot⟩]
      rfl
    | value c =>
      have hopened := ValueCache.openStored_eq_ok_iff.mpr ⟨hread, ⟨k, hindex, hslot⟩, rfl⟩
      show m.step = _
      rw [step_eq_peek control, peek, found]
      dsimp only
      rw [hopened]
  · intro hfree k hkey hslot
    have hread : r.guard.obstacle? .read = none := hm.obstacle?_of_not_blocked found hfree
    have hindex : (m.session.request key).index = .ok k := Request.index_eq_ok_iff.mpr hkey
    cases r with
    | cell => cases cache
    | stable c =>
      have hrefused : m.step =
          refuse ((m.session.request key).fault (.absent c.label)) m.stack m.session := by
        rw [step_peek_stable found control, StableCache.peek_of_absent hread hindex hslot]
        rfl
      exact declines_of_step hrefused fun _ => rfl
    | value c =>
      have hrefused : m.step =
          refuse ((m.session.request key).fault (.absent c.label)) m.stack m.session := by
        rw [step_eq_peek control, peek, found]
        dsimp only
        rw [ValueCache.openStored_of_absent hread hindex hslot]
      exact declines_of_step hrefused fun _ => rfl

theorem Reachable.obeys_contains (hm : Reachable m)
    (found : m.session.resources[place.id]? = some r) (cache : r.isCache = true)
    (control : m.control = .eval (.contains place key)) :
    m.Obeys key (fun _ => m.step = ⟨.give (.bool true), m.stack, m.session⟩)
      (fun _ => m.step = ⟨.give (.bool false), m.stack, m.session⟩)
      (m.lookVerdict place.id r key) := by
  have hstep : m.step =
      reply m.stack ((r.contains (m.session.request key)).map .bool, m.session) := by
    obtain ⟨_, stack, s⟩ := m
    obtain rfl := control
    exact step_contains found
  have answer {k : Key} (hfree : ¬0 < m.held ⟨place.id, .write⟩) (hkey : key.key = .ok k) :
      m.step = ⟨.give (.bool (r.slots.get? k).isSome), m.stack, m.session⟩ := by
    rw [hstep, Resource.contains_eq cache (hm.obstacle?_of_not_blocked found hfree)
      (Request.index_eq_ok_iff.mpr hkey)]
    rfl
  refine Verdict.ofLookup_cases (motive := fun d => m.Obeys key
    (fun _ => m.step = ⟨.give (.bool true), m.stack, m.session⟩)
    (fun _ => m.step = ⟨.give (.bool false), m.stack, m.session⟩) d) _ _ _ ?_ ?_ ?_ ?_
  · intro hblocked
    exact hm.declines_of_blocked found control (.contains rfl found cache key) hblocked
  · intro hfree u hkey
    refine rejects_of_step ?_
    rw [hstep, Resource.contains_of_unhashable cache (hm.obstacle?_of_not_blocked found hfree) hkey]
    rfl
  · intro hfree k v hkey hslot
    exact (answer hfree hkey).trans (by rw [hslot]; rfl)
  · intro hfree k hkey hslot
    exact (answer hfree hkey).trans (by rw [hslot]; rfl)

theorem Reachable.obeys_size (hm : Reachable m)
    (found : m.session.resources[place.id]? = some r) (cache : r.isCache = true)
    (control : m.control = .eval (.perform (.inspect (.size place)))) :
    if 0 < m.held ⟨place.id, .write⟩ then m.Declines .null .borrow
    else m.step = ⟨.give (.int r.slots.size), m.stack, m.session⟩ := by
  split
  · rename_i hblocked
    exact hm.declines_of_blocked found control (.size rfl found cache) hblocked
  · rename_i hfree
    have hread : r.guard.obstacle? .read = none := hm.obstacle?_of_not_blocked found hfree
    obtain ⟨_, stack, s⟩ := m
    obtain rfl := control
    rw [step_size found, Resource.size_eq cache hread]
    rfl

end

/-! ### Main statement -/

/-- **Requests are refused in a fixed order, and a refused request changes nothing.**  A stable
cache looks for a write view first, then at the key, then at the stored values, whatever read views
are active, then for read views and then at the marks; a value cache looks for any view, then at the
key and then at the stored values.  What neither refuses nor finds is computed, and nothing else is.
Peeks, membership tests and sizes of both are refused for a write view, and then, but for sizes, if
there is no key.  A refused request is over at once, and leaves the cells and caches, the views and
the thread as they were; its fault shows its key, so where the key cannot be shown, that is the
fault, and such a key is not computed. -/
theorem refused_in_order (hm : Reachable m) (place : Place) (key : Value) :
    (∀ c compute, m.session.resources[place.id]? = some (.stable c) →
      m.control = .eval (.get place key compute) →
      m.Obeys key (m.HitsStable place.id c) (m.Misses (m.CallsStable place.id c key compute))
        (m.stableVerdict place.id c key) ∧
      ((∃ x, Starts m m.step x) ↔
        ∃ k, m.stableVerdict place.id c key = .absent k ∧ k.isShowable = true)) ∧
    (∀ c compute, m.session.resources[place.id]? = some (.value c) →
      m.control = .eval (.get place key compute) →
      m.Obeys key (m.HitsValue place.id c) (m.Misses (m.CallsValue place.id c key compute))
        (m.valueVerdict place.id c key) ∧
      ((∃ x, Starts m m.step x) ↔
        ∃ k, m.valueVerdict place.id c key = .absent k ∧ k.isShowable = true)) ∧
    ∀ r : Resource, m.session.resources[place.id]? = some r → r.isCache = true →
      (m.control = .eval (.peek place key) →
        m.Obeys key (m.Shows place.id · r) (fun _ => m.Declines key .missingKey)
          (m.lookVerdict place.id r key)) ∧
      (m.control = .eval (.contains place key) →
        m.Obeys key (fun _ => m.step = ⟨.give (.bool true), m.stack, m.session⟩)
          (fun _ => m.step = ⟨.give (.bool false), m.stack, m.session⟩)
          (m.lookVerdict place.id r key)) ∧
      (m.control = .eval (.perform (.inspect (.size place))) →
        if 0 < m.held ⟨place.id, .write⟩ then m.Declines .null .borrow
        else m.step = ⟨.give (.int r.slots.size), m.stack, m.session⟩) := by
  refine ⟨?_, ?_, fun r found cache => ⟨fun control => hm.obeys_peek found cache control,
    fun control => hm.obeys_contains found cache control,
    fun control => hm.obeys_size found cache control⟩⟩
  · intro c compute found control
    have hobeys := hm.obeys_getStable found control
    refine ⟨hobeys, hobeys.starts_iff (fun v hv x => hv.not_starts x) fun k hk hcalled => ?_⟩
    have habsent := Verdict.absent_of_toMark hk
    exact starts_of_callsStable control (Verdict.key_of_absent habsent) hcalled
  · intro c compute found control
    have hobeys := hm.obeys_getValue found control
    refine ⟨hobeys, hobeys.starts_iff (fun v hv x => hv.not_starts x) fun k hk hcalled => ?_⟩
    exact starts_of_callsValue control (Verdict.key_of_absent hk) hcalled

/-- Asks a stable cache for a key inside a read view, first for its value and then for another
key. -/
def requestsBeside (place : Place) : Program :=
  .andThen (.get place (.text "k") fun _ => .done (.int 1))
    (.view place .read .null fun _ =>
      .andThen (.get place (.text "k") fun _ => .done (.int 2))
        (.get place (.text "j") fun _ => .done (.int 3)))

/-- The machine that asks for the key that has a value. -/
def askingBeside : Machine :=
  (load (.andThen (.perform (.create (.stable "c" none))) (.reach (.named "c") requestsBeside))
    (.start .events [])).run 11

/-- The machine that asks for the other key. -/
def askingFurther : Machine := askingBeside.run 2

theorem refused_in_order_requestsBeside :
    Reachable askingBeside ∧ askingBeside.held ⟨0, .read⟩ = 1 ∧
      askingBeside.step.control = .give (.int 1) ∧
      Reachable askingFurther ∧ askingFurther.held ⟨0, .read⟩ = 1 ∧
      askingFurther.Declines (.text "j") .borrow ∧
      ∀ x, ¬Starts askingFurther askingFurther.step x := by
  have hm : Reachable askingBeside := (Reachable.start ..).leads (leads_run ..)
  have hm₁ : Reachable askingFurther := hm.leads (leads_run ..)
  obtain ⟨hstable, -⟩ := refused_in_order hm ⟨0, none⟩ (.text "k")
  obtain ⟨hstable₁, -⟩ := refused_in_order hm₁ ⟨0, none⟩ (.text "j")
  obtain ⟨hhit, -⟩ := hstable _ _ rfl rfl
  obtain ⟨hdeclined, hstarts⟩ := hstable₁ _ _ rfl rfl
  have hstep : askingBeside.HitsStable 0 _ (.int 1) := hhit
  refine ⟨hm, rfl, congrArg Machine.control hstep, hm₁, rfl, hdeclined, fun x hx => ?_⟩
  -- the verdict is a conflict
  obtain ⟨k, ⟨⟩, -⟩ := hstarts.mp ⟨x, hx⟩

/-- Asks a stable cache for a key that cannot be shown, inside a read view. -/
def longKeyBeside (place : Place) : Program :=
  .view place .read .null fun _ => .get place longKey fun _ => .done (.int 1)

/-- The machine that asks for the key. -/
def askingLongKeyBeside : Machine :=
  (load (.andThen (.perform (.create (.stable "c" none))) (.reach (.named "c") longKeyBeside))
    (.start .events [])).run 5

/-- A read view of a stable cache is active and no write view, a key without a value is requested,
and the fault that is raised is not of the borrowing kind, because the key cannot be shown. -/
theorem borrow_fault_lost_on_long_key :
    Reachable askingLongKeyBeside ∧
      askingLongKeyBeside.control = .eval (.get ⟨0, none⟩ longKey fun _ => .done (.int 1)) ∧
      (∃ k, longKey.key = .ok k ∧ askingLongKeyBeside.session.shared.stored ⟨0, k⟩ = none) ∧
      askingLongKeyBeside.held ⟨0, .write⟩ = 0 ∧ askingLongKeyBeside.held ⟨0, .read⟩ = 1 ∧
      ∃ f, askingLongKeyBeside.step.control = .raise f ∧ f.kind ≠ .borrow := by
  have hm : Reachable askingLongKeyBeside := (Reachable.start ..).leads (leads_run ..)
  obtain ⟨c, found, hslots⟩ : ∃ c, askingLongKeyBeside.session.resources[0]? = some (.stable c) ∧
      c.slots = ∅ := ⟨_, rfl, rfl⟩
  obtain ⟨k, hk⟩ : ∃ k, longKey.key = .ok k := ⟨_, rfl⟩
  have hread : askingLongKeyBeside.held ⟨0, .read⟩ = 1 := rfl
  have hblocked : askingLongKeyBeside.Blocked 0 .write := .inl (hread ▸ Nat.one_pos)
  have habsent : c.slots.get? k = none := by rw [hslots]; rfl
  have hfree : c.guard.obstacle? .read = none :=
    hm.obstacle?_of_not_blocked found (Nat.lt_irrefl 0)
  have hdeclined : askingLongKeyBeside.Declines longKey .borrow :=
    hm.declines_of_blocked found rfl
      (@Demands.mark _ _ ⟨0, none⟩ rfl _ found hfree _ _ hk habsent _) hblocked
  obtain ⟨f, ⟨hstep, -⟩, hkind⟩ := hdeclined
  rw [Memory.text?_longKey] at hkind
  refine ⟨hm, rfl, ⟨k, hk, ?_⟩, rfl, hread, f, congrArg Machine.control hstep, ?_⟩
  · rw [Shared.stored_of_found (c := askingLongKeyBeside.session.shared) found]
    exact habsent
  · rw [hkind]
    decide

end Machine

end CheckedMemo
