import CheckedMemo.Proofs.KeyText

/-!
# What caches answer

When a cache answers a request with a stored value, when it starts a computation, and what it
leaves when a computation ends: each of `start`, `openStored` and `finish` is said once in terms of
the guard, the stored values and the marks, so that nothing else looks into them.
-/

namespace CheckedMemo

/-- What a computation that may fail came from. -/
theorem exists_of_bind_eq_ok {ε α β : Type} {x : Except ε α} {f : α → Except ε β} {b : β}
    (h : x >>= f = .ok b) : ∃ a, x = .ok a ∧ f a = .ok b := by
  cases x with
  | error e => cases h
  | ok a => exact ⟨a, rfl, h⟩

/-- What the failure of a computation came from. -/
theorem cases_of_bind_eq_error {ε α β : Type} {x : Except ε α} {f : α → Except ε β} {e : ε}
    (h : x >>= f = .error e) : x = .error e ∨ ∃ a, x = .ok a ∧ f a = .error e := by
  cases x with
  | error e' =>
    cases h
    exact .inl rfl
  | ok a => exact .inr ⟨a, rfl, h⟩

theorem ok_bind {ε α β : Type} (a : α) (f : α → Except ε β) : (Except.ok a >>= f) = f a := rfl

/-! ### Requests and guards -/

@[simp] theorem Session.key_request (s : Session) (key : Value) : (s.request key).key = key := rfl

theorem Request.index_eq_ok_iff {r : Request} {k : Key} : r.index = .ok k ↔ r.key.key = .ok k := by
  unfold index
  cases r.key.key <;> simp

theorem Request.index_of_unhashable {r : Request} {u : Unhashable} (h : r.key.key = .error u) :
    r.index = .error (.unhashable u) := by
  rw [index, h]

theorem Request.value_of_spelled {r : Request} {key : Spelled} (h : r.spelled = .ok key) :
    key.value = r.key := by
  unfold spelled at h
  split at h
  · cases h
    rfl
  · cases h

theorem Request.fault_of_spelled {r : Request} {key : Spelled} (h : r.spelled = .ok key)
    (cause : Spelled → Fault) : r.fault cause = cause key := by
  rw [fault, h]

namespace Guard

variable {g : Guard} {mode : Mode}

theorem allow_of_free (h : g.obstacle? mode = none) (r : Request) : g.allow mode r = .ok () :=
  (allow_eq_ok_iff g mode r).mpr h

theorem allow_of_obstacle {active : Active} (h : g.obstacle? mode = some active) (r : Request) :
    g.allow mode r = .error (r.fault (.conflict g.label mode active)) := by
  rw [allow, h]

theorem obstacle?_of_not_isBorrowed (h : g.isBorrowed = false) (mode : Mode) :
    g.obstacle? mode = none := by
  cases mode with
  | read => grind [obstacle?, isBorrowed]
  | write => exact (obstacle?_write_eq_none_iff g).mpr h

theorem not_isBorrowed_of_free (h : g.obstacle? .write = none) : g.isBorrowed = false :=
  (obstacle?_write_eq_none_iff g).mp h

end Guard

/-! ### Stable caches -/

namespace StableCache

variable {c c' : StableCache} {thread : Thread} {r : Request} {key : Spelled} {k : Key} {v : Value}

theorem reserve_eq_ok_iff :
    c.reserve thread r k = .ok c' ↔ c.guard.obstacle? .write = none ∧ c.pending.get? k = none ∧
      c' = { c with pending := c.pending.insert k thread } := by
  unfold reserve
  constructor
  · intro h
    obtain ⟨_, hallow, h⟩ := exists_of_bind_eq_ok h
    split at h
    · rename_i hk
      cases h
      exact ⟨(Guard.allow_eq_ok_iff ..).mp hallow, hk, rfl⟩
    · cases h
  · rintro ⟨hfree, hk, rfl⟩
    rw [Guard.allow_of_free hfree, hk]
    rfl

/-- A stable cache gives out a stored value while no write view is active. -/
theorem start_eq_hit_iff :
    c.start thread r = .ok (.hit v c') ↔ c.guard.obstacle? .read = none ∧
      (∃ k, r.index = .ok k ∧ c.slots.get? k = some v) ∧ c' = { c with hits := c.hits + 1 } := by
  unfold start
  constructor
  · intro h
    obtain ⟨_, hallow, h⟩ := exists_of_bind_eq_ok h
    obtain ⟨k, hk, h⟩ := exists_of_bind_eq_ok h
    split at h
    · rename_i w hw
      cases h
      exact ⟨(Guard.allow_eq_ok_iff ..).mp hallow, ⟨k, hk, hw⟩, rfl⟩
    · obtain ⟨_, -, h⟩ := exists_of_bind_eq_ok h
      obtain ⟨_, -, h⟩ := exists_of_bind_eq_ok h
      cases h
  · rintro ⟨hfree, ⟨k, hk, hv⟩, rfl⟩
    rw [Guard.allow_of_free hfree, hk, ok_bind, ok_bind, hv]

/-- A stable cache starts a computation for a key that has neither a value nor a mark, while no view
is active; nothing changes then but the mark. -/
theorem start_eq_miss_iff :
    c.start thread r = .ok (.miss key k c') ↔ c.guard.isBorrowed = false ∧ r.index = .ok k ∧
      c.slots.get? k = none ∧ c.pending.get? k = none ∧ r.spelled = .ok key ∧
      c' = { c with pending := c.pending.insert k thread } := by
  unfold start
  constructor
  · intro h
    obtain ⟨_, -, h⟩ := exists_of_bind_eq_ok h
    obtain ⟨k', hk, h⟩ := exists_of_bind_eq_ok h
    split at h
    · cases h
    · rename_i hnone
      obtain ⟨c₁, hc₁, h⟩ := exists_of_bind_eq_ok h
      obtain ⟨key', hkey, h⟩ := exists_of_bind_eq_ok h
      cases h
      obtain ⟨hfree, hpending, rfl⟩ := reserve_eq_ok_iff.mp hc₁
      exact ⟨Guard.not_isBorrowed_of_free hfree, hk, hnone, hpending, hkey, rfl⟩
  · rintro ⟨hfree, hk, hnone, hpending, hkey, rfl⟩
    have hc₁ : c.reserve thread r k = .ok { c with pending := c.pending.insert k thread } :=
      reserve_eq_ok_iff.mpr ⟨Guard.obstacle?_of_not_isBorrowed hfree .write, hpending, rfl⟩
    rw [Guard.allow_of_free (Guard.obstacle?_of_not_isBorrowed hfree .read), hk, ok_bind, ok_bind,
      hnone, hc₁, hkey]
    rfl

/-- A key that cannot be shown is not computed. -/
theorem start_of_unshown (hfree : c.guard.isBorrowed = false) (hk : r.index = .ok k)
    (hnone : c.slots.get? k = none) (hpending : c.pending.get? k = none)
    (hunshown : r.spelled = .error .unspellable) : c.start thread r = .error .unspellable := by
  have hreserve : c.reserve thread r k = .ok { c with pending := c.pending.insert k thread } :=
    reserve_eq_ok_iff.mpr ⟨Guard.obstacle?_of_not_isBorrowed hfree .write, hpending, rfl⟩
  rw [start, Guard.allow_of_free (Guard.obstacle?_of_not_isBorrowed hfree .read), hk, ok_bind,
    ok_bind, hnone]
  dsimp only
  rw [hreserve, hunshown]
  rfl

theorem start_of_unhashable {u : Unhashable} (hfree : c.guard.obstacle? .read = none)
    (hkey : r.key.key = .error u) : c.start thread r = .error (.unhashable u) := by
  rw [start, Guard.allow_of_free hfree, Request.index_of_unhashable hkey]
  rfl

/-- While no view is active, a request for a marked key without a value is refused. -/
theorem start_of_marked {owner : Thread} (hfree : c.guard.isBorrowed = false)
    (hk : r.index = .ok k) (hnone : c.slots.get? k = none)
    (howner : c.pending.get? k = some owner) :
    c.start thread r =
      .error (r.fault (if owner = thread then .reentrant c.label else .busy c.label)) := by
  unfold start reserve
  rw [Guard.allow_of_free (Guard.obstacle?_of_not_isBorrowed hfree .read), hk,
    Guard.allow_of_free (Guard.obstacle?_of_not_isBorrowed hfree .write), ok_bind, ok_bind, hnone,
    howner]
  rfl

/-- While no view is active, the end of a computation stores its value, gives the stored value out
and takes the mark away. -/
theorem finish_ok_of_free (hfree : c.guard.isBorrowed = false) :
    c.finish key k (.ok v) =
      ⟨c.deposit k v, [], .ok (((c.deposit k v).slots.get? k).getD v)⟩ := by
  unfold finish
  rw [Guard.allow_of_free (Guard.obstacle?_of_not_isBorrowed hfree .write)]

/-- While no view is active, the failure of a computation is passed on, and the mark taken away. -/
theorem finish_error_of_free {f : Fault} (hfree : c.guard.isBorrowed = false) :
    c.finish key k (.error f) = ⟨c.withdraw k, [], .error f⟩ := by
  unfold finish
  rw [Guard.allow_of_free (Guard.obstacle?_of_not_isBorrowed hfree .write)]

/-- While a view is active, the end of a computation changes nothing, and a conflict takes the place
of the outcome. -/
theorem finish_of_borrowed (h : c.guard.isBorrowed = true) (key : Spelled) (k : Key)
    (outcome : Except Fault Value) :
    ∃ active, c.guard.obstacle? .write = some active ∧ (c.finish key k outcome).cache = c ∧
      (c.finish key k outcome).outcome = .error (.conflict c.guard.label .write active key) := by
  have hobstacle : c.guard.obstacle? .write ≠ none := by
    rw [ne_eq, Guard.obstacle?_write_eq_none_iff, h]
    exact Bool.noConfusion
  obtain ⟨active, hactive⟩ := Option.ne_none_iff_exists'.mp hobstacle
  have hallow := Guard.allow_of_obstacle hactive key.request
  rw [Spelled.fault_request] at hallow
  refine ⟨active, hactive, ?_⟩
  unfold finish
  rw [hallow]
  cases outcome <;> exact ⟨rfl, rfl⟩

/-- A failed computation changes neither the stored values nor the counts. -/
theorem finish_error (c : StableCache) (key : Spelled) (k : Key) (f : Fault) :
    (c.finish key k (.error f)).cache.slots = c.slots ∧
      (c.finish key k (.error f)).cache.hits = c.hits ∧
      (c.finish key k (.error f)).cache.misses = c.misses := by
  unfold finish
  cases c.guard.allow .write key.request <;> exact ⟨rfl, rfl, rfl⟩

/-- The end of a computation takes the mark of its key away exactly if no view is active. -/
theorem unmarked_finish_iff (hk : c.pending.get? k ≠ none) (key : Spelled)
    (outcome : Except Fault Value) :
    (c.finish key k outcome).cache.pending.get? k = none ↔ c.guard.isBorrowed = false := by
  by_cases h : c.guard.isBorrowed = true
  · obtain ⟨-, -, hcache, -⟩ := finish_of_borrowed h key k outcome
    rw [hcache, h]
    exact ⟨fun hnone => absurd hnone hk, fun hfalse => Bool.noConfusion hfalse⟩
  · rw [Bool.not_eq_true] at h
    rw [h]
    cases outcome with
    | ok v => simp [finish_ok_of_free h]
    | error f => simp [finish_error_of_free h, withdraw]

theorem find_eq_ok_iff {o : Option Value} :
    c.find r = .ok o ↔ c.guard.obstacle? .read = none ∧ ∃ k, r.index = .ok k ∧
      c.slots.get? k = o := by
  unfold find
  constructor
  · intro h
    obtain ⟨_, hallow, h⟩ := exists_of_bind_eq_ok h
    obtain ⟨k, hk, h⟩ := exists_of_bind_eq_ok h
    cases h
    exact ⟨(Guard.allow_eq_ok_iff ..).mp hallow, k, hk, rfl⟩
  · rintro ⟨hfree, k, hk, rfl⟩
    rw [Guard.allow_of_free hfree, hk]
    rfl

theorem find_of_unhashable {u : Unhashable} (hfree : c.guard.obstacle? .read = none)
    (hkey : r.key.key = .error u) : c.find r = .error (.unhashable u) := by
  rw [find, Guard.allow_of_free hfree, Request.index_of_unhashable hkey]
  rfl

theorem peek_eq_ok_iff :
    c.peek r = .ok v ↔ c.guard.obstacle? .read = none ∧ ∃ k, r.index = .ok k ∧
      c.slots.get? k = some v := by
  rw [← find_eq_ok_iff]
  unfold peek
  constructor
  · intro h
    obtain ⟨o, ho, h⟩ := exists_of_bind_eq_ok h
    cases o with
    | none => cases h
    | some w =>
      cases h
      exact ho
  · intro h
    rw [h]
    rfl

/-- What is retrieved is what a peek shows. -/
theorem peek_of_retrieve {hint : Option String} (h : c.retrieve hint r = .ok v) :
    c.peek r = .ok v := by
  unfold retrieve at h
  obtain ⟨found, -, h⟩ := exists_of_bind_eq_ok h
  split at h
  · exact h
  · cases h

theorem guard_finish (c : StableCache) (key : Spelled) (k : Key) (outcome : Except Fault Value) :
    (c.finish key k outcome).cache.guard = c.guard := by
  unfold finish
  split <;> rfl

end StableCache

/-! ### Value caches -/

namespace ValueCache

variable {c c' : ValueCache} {r : Request} {key : Spelled} {k : Key} {v : Value}

/-- A value cache answers with a stored value inside a write view of its own. -/
theorem start_eq_hit_iff :
    c.start r = .ok (.hit v c') ↔ c.guard.isBorrowed = false ∧
      (∃ k, r.index = .ok k ∧ c.slots.get? k = some v) ∧
      c' = { c.acquire .write with hits := c.hits + 1 } := by
  unfold start
  constructor
  · intro h
    obtain ⟨_, hallow, h⟩ := exists_of_bind_eq_ok h
    obtain ⟨k, hk, h⟩ := exists_of_bind_eq_ok h
    split at h
    · rename_i w hw
      cases h
      exact ⟨Guard.not_isBorrowed_of_free ((Guard.allow_eq_ok_iff ..).mp hallow), ⟨k, hk, hw⟩, rfl⟩
    · obtain ⟨_, -, h⟩ := exists_of_bind_eq_ok h
      cases h
  · rintro ⟨hfree, ⟨k, hk, hv⟩, rfl⟩
    rw [Guard.allow_of_free (Guard.obstacle?_of_not_isBorrowed hfree .write), hk, ok_bind, ok_bind,
      hv]

/-- A value cache starts a computation for a key without a value inside a write view of its own. -/
theorem start_eq_miss_iff :
    c.start r = .ok (.miss key k c') ↔ c.guard.isBorrowed = false ∧ r.index = .ok k ∧
      c.slots.get? k = none ∧ r.spelled = .ok key ∧ c' = c.acquire .write := by
  unfold start
  constructor
  · intro h
    obtain ⟨_, hallow, h⟩ := exists_of_bind_eq_ok h
    obtain ⟨k', hk, h⟩ := exists_of_bind_eq_ok h
    split at h
    · cases h
    · rename_i hnone
      obtain ⟨key', hkey, h⟩ := exists_of_bind_eq_ok h
      cases h
      exact ⟨Guard.not_isBorrowed_of_free ((Guard.allow_eq_ok_iff ..).mp hallow), hk, hnone, hkey,
        rfl⟩
  · rintro ⟨hfree, hk, hnone, hkey, rfl⟩
    rw [Guard.allow_of_free (Guard.obstacle?_of_not_isBorrowed hfree .write), hk, ok_bind, ok_bind,
      hnone, hkey]
    rfl

/-- A value cache reads a stored value inside a read view. -/
theorem openStored_eq_ok_iff :
    c.openStored r = .ok (v, c') ↔ c.guard.obstacle? .read = none ∧
      (∃ k, r.index = .ok k ∧ c.slots.get? k = some v) ∧ c' = c.acquire .read := by
  unfold openStored
  constructor
  · intro h
    obtain ⟨_, hallow, h⟩ := exists_of_bind_eq_ok h
    obtain ⟨k, hk, h⟩ := exists_of_bind_eq_ok h
    split at h
    · rename_i w hw
      cases h
      exact ⟨(Guard.allow_eq_ok_iff ..).mp hallow, ⟨k, hk, hw⟩, rfl⟩
    · cases h
  · rintro ⟨hfree, ⟨k, hk, hv⟩, rfl⟩
    rw [Guard.allow_of_free hfree, hk, ok_bind, ok_bind, hv]

end ValueCache

end CheckedMemo
