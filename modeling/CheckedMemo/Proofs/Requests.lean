import CheckedMemo.Proofs.Computations

/-!
# Requests for values

What a request to a cache comes to in one step.  A computation that is called is waited for by a
frame (`starts_or_leavesUncalled`, `starts_or_copiesStored`): no request that is refused or answered
calls it.

A request to a stable cache is refused, or answered with the stored value, or its computation is
called (`step_get_cases`).  While no view is active, a request for a marked key is refused
(`step_get_of_marked`) and any other is served (`step_get_of_unmarked`).  What the cache makes of
the outcome of a computation is `step_computing`.
-/

namespace CheckedMemo.Machine

variable {m m' : Machine} {place : Place} {key : Value} {compute : Value → Program}
  {c : StableCache} {k : Key}

/-- A request with an equal key is looked up under the same key. -/
theorem index_eq {s : Session} {j : Key} (hkey : key.key = .ok k)
    (hj : (s.request key).index = .ok j) : j = k := by
  have hj' : key.key = .ok j := Request.index_eq_ok_iff.mp hj
  exact Except.ok.inj (hj'.symm.trans hkey)

theorem step_eq_get (control : m.control = .eval (.get place key compute)) :
    m.step = Machine.get place.id key compute m.stack m.session := by
  rw [step, control]
  rfl

section

variable {id : Nat} {stack : List Frame} {s : Session}

theorem get_eq_getStable (found : s.resources[id]? = some (.stable c)) :
    Machine.get id key compute stack s = getStable id c key compute stack s := by
  rw [Machine.get, found]

theorem get_eq_getValue {c : ValueCache} (found : s.resources[id]? = some (.value c)) :
    Machine.get id key compute stack s = getValue id c key compute stack s := by
  rw [Machine.get, found]

end

theorem step_eq_getStable (control : m.control = .eval (.get place key compute))
    (found : m.session.resources[place.id]? = some (.stable c)) :
    m.step = getStable place.id c key compute m.stack m.session :=
  (step_eq_get control).trans (get_eq_getStable found)

theorem step_eq_getValue {c : ValueCache} (control : m.control = .eval (.get place key compute))
    (found : m.session.resources[place.id]? = some (.value c)) :
    m.step = getValue place.id c key compute m.stack m.session :=
  (step_eq_get control).trans (get_eq_getValue found)

/-- What a request to a stable cache comes to. -/
theorem step_get_cases (control : m.control = .eval (.get place key compute))
    (found : m.session.resources[place.id]? = some (.stable c)) :
    (∃ f, m.step.control = .raise f ∧ m.step.stack = m.stack ∧
      m.step.session.shared = m.session.shared) ∨
    (∃ k v, key.key = .ok k ∧ c.slots.get? k = some v ∧ m.step.control = .give v ∧
      m.step.stack = m.stack ∧ m.step.session.shared =
        m.session.shared.set place.id (.stable { c with hits := c.hits + 1 })) ∨
    ∃ shown k, key.key = .ok k ∧ c.slots.get? k = none ∧ c.pending.get? k = none ∧
      k.isShowable = true ∧ m.step.control = .eval (compute key) ∧
      m.step.stack = .computing place.id shown k :: m.stack ∧ m.step.session.shared =
        m.session.shared.set place.id
          (.stable { c with pending := c.pending.insert k m.session.thread }) := by
  rw [step_eq_getStable control found]
  unfold getStable
  split
  · exact .inl ⟨_, rfl, rfl, Session.shared_report ..⟩
  · rename_i v c' hstart
    obtain ⟨-, ⟨k, hk, hv⟩, rfl⟩ := StableCache.start_eq_hit_iff.mp hstart
    exact .inr (.inl ⟨k, v, Request.index_eq_ok_iff.mp hk, hv, rfl, rfl, rfl⟩)
  · rename_i shown k c' hstart
    obtain ⟨-, hk, hnone, hpending, hshown, rfl⟩ := StableCache.start_eq_miss_iff.mp hstart
    have hkey : key.key = .ok k := Request.index_eq_ok_iff.mp hk
    have hshowable : k.isShowable = true := (m.session.spelled_isOk_iff hkey).mp ⟨shown, hshown⟩
    exact .inr (.inr ⟨shown, k, hkey, hnone, hpending, hshowable, rfl, rfl, rfl⟩)

/-! ### Calls of computations -/

/-- A stable cache calls the computation of a request, or answers without it. -/
theorem getStable_cases (id : Nat) (c : StableCache) (key : Value) (compute : Value → Program)
    (stack : List Frame) (s : Session) :
    (∃ shown k t, key.key = .ok k ∧ getStable id c key compute stack s =
      ⟨.eval (compute key), .computing id shown k :: stack, t⟩) ∨
    ∃ n : Machine, n.control.isOutcome = true ∧
      ∀ compute', getStable id c key compute' stack s = n := by
  unfold getStable
  cases hstart : c.start s.thread (s.request key) with
  | error f => exact .inr ⟨_, rfl, fun _ => rfl⟩
  | ok found =>
    cases found with
    | hit v c' => exact .inr ⟨_, rfl, fun _ => rfl⟩
    | miss shown k c' =>
      obtain ⟨-, hindex, -⟩ := StableCache.start_eq_miss_iff.mp hstart
      exact .inl ⟨shown, k, _, Request.index_eq_ok_iff.mp hindex, rfl⟩

/-- A value cache calls the computation of a request, or answers without it: it refuses the request,
or is about to copy what it has stored. -/
theorem getValue_cases (id : Nat) (c : ValueCache) (key : Value) (compute : Value → Program)
    (stack : List Frame) (s : Session) :
    (∃ k t, key.key = .ok k ∧ getValue id c key compute stack s =
      ⟨.eval (compute key), .storing id k :: .release id .write :: stack, t⟩) ∨
    ∃ n : Machine, (n.control.isOutcome = true ∨
        ∃ k v, key.key = .ok k ∧ c.slots.get? k = some v ∧ n.control = .eval (.copy v)) ∧
      ∀ compute', getValue id c key compute' stack s = n := by
  unfold getValue
  cases hstart : c.start (s.request key) with
  | error f => exact .inr ⟨_, .inl rfl, fun _ => rfl⟩
  | ok found =>
    cases found with
    | hit v c' =>
      obtain ⟨-, ⟨k, hindex, hv⟩, -⟩ := ValueCache.start_eq_hit_iff.mp hstart
      exact .inr ⟨_, .inr ⟨k, v, Request.index_eq_ok_iff.mp hindex, hv, rfl⟩, fun _ => rfl⟩
    | miss shown k c' =>
      obtain ⟨-, hindex, -⟩ := ValueCache.start_eq_miss_iff.mp hstart
      exact .inl ⟨k, _, Request.index_eq_ok_iff.mp hindex, rfl⟩

/-- A cache is about to be asked for `x`, by a request with a key and a computation. -/
def Requests (m : Machine) (x : Task) (key : Value) (compute : Value → Program) : Prop :=
  ∃ place, m.control = .eval (.get place key compute) ∧ place.id = x.cache ∧ key.key = .ok x.key

/-- The computation that comes with the request that `m` is about to make is not called: whatever it
were, the same would come of the request. -/
def LeavesUncalled (m : Machine) : Prop :=
  ∀ place key compute compute', m.control = .eval (.get place key compute) →
    (⟨.eval (.get place key compute'), m.stack, m.session⟩ : Machine).step = m.step

/-- A request that is answered alike with any computation leaves its own uncalled. -/
theorem step_of_answered (control : m.control = .eval (.get place key compute)) {n : Machine}
    (h : ∀ compute', Machine.get place.id key compute' m.stack m.session = n) :
    m.LeavesUncalled ∧ m.step = n := by
  have hstep : m.step = n := (step_eq_get control).trans (h compute)
  refine ⟨?_, hstep⟩
  intro _ _ _ compute' control'
  cases control.symm.trans control'
  exact (h compute').trans hstep.symm

/-- A request starts its computation, with a frame that waits for the outcome, or does not call it.
In the latter case it has been answered, unless a value cache goes on to copy what it has stored. -/
theorem step_get_calls (control : m.control = .eval (.get place key compute)) :
    (∃ k, key.key = .ok k ∧ Starts m m.step ⟨place.id, k⟩) ∨
      m.LeavesUncalled ∧ (m.step.control.isOutcome = true ∨
        ∃ c k v, m.session.resources[place.id]? = some (.value c) ∧ key.key = .ok k ∧
          c.slots.get? k = some v ∧ m.step.control = .eval (.copy v)) := by
  -- what is no cache refuses the request, whatever computation comes with it
  have refused (h : ∀ compute', Machine.get place.id key compute' m.stack m.session =
      refuse Session.unsuitable m.stack m.session) :
      m.LeavesUncalled ∧ m.step.control.isOutcome = true :=
    (step_of_answered control h).imp_right fun hstep => by rw [hstep]; rfl
  cases found : m.session.resources[place.id]? with
  | none => exact .inr ((refused fun _ => by rw [Machine.get, found]).imp_right .inl)
  | some r =>
    cases r with
    | cell => exact .inr ((refused fun _ => by rw [Machine.get, found]).imp_right .inl)
    | stable c =>
      rcases getStable_cases place.id c key compute m.stack m.session with
        ⟨shown, k, t, hkey, hcall⟩ | ⟨n, hn, hanswer⟩
      · -- the frame is on the stack as soon as the computation is called
        have hstep := (step_eq_getStable control found).trans hcall
        refine .inl ⟨k, hkey, ⟨place, key, compute, control, rfl, hkey, ?_⟩,
          .computing place.id shown k, m.stack, ?_, rfl, List.suffix_rfl⟩ <;> rw [hstep]
      · obtain ⟨huncalled, rfl⟩ := step_of_answered control fun compute' =>
          (get_eq_getStable found).trans (hanswer compute')
        exact .inr ⟨huncalled, .inl hn⟩
    | value c =>
      rcases getValue_cases place.id c key compute m.stack m.session with
        ⟨k, t, hkey, hcall⟩ | ⟨n, hn, hanswer⟩
      · have hstep := (step_eq_getValue control found).trans hcall
        refine .inl ⟨k, hkey, ⟨place, key, compute, control, rfl, hkey, ?_⟩,
          .storing place.id k, .release place.id .write :: m.stack, ?_, rfl,
          List.suffix_cons ..⟩ <;> rw [hstep]
      · obtain ⟨huncalled, rfl⟩ := step_of_answered control fun compute' =>
          (get_eq_getValue found).trans (hanswer compute')
        refine .inr ⟨huncalled, hn.imp_right ?_⟩
        rintro ⟨k, v, hkey, hv, hcopy⟩
        exact ⟨c, k, v, rfl, hkey, hv, hcopy⟩

/-- A step starts the computation of the request that is made there, or calls none. -/
theorem starts_or_leavesUncalled (m : Machine) : (∃ x, Starts m m.step x) ∨ m.LeavesUncalled := by
  by_cases hask : ∃ place key compute, m.control = .eval (.get place key compute)
  · obtain ⟨place, key, compute, control⟩ := hask
    rcases step_get_calls control with ⟨k, -, hstarts⟩ | ⟨huncalled, -⟩
    · exact .inl ⟨_, hstarts⟩
    · exact .inr huncalled
  · exact .inr fun place key compute _ control => absurd ⟨place, key, compute, control⟩ hask

theorem not_starts_of_isOutcome (h : m.control.isOutcome = true) (x : Task) :
    ¬Starts m m' x := by
  rintro ⟨⟨place, key, compute, control, -⟩, -⟩
  rw [control] at h
  cases h

theorem not_starts_of_step_isOutcome (h : m'.control.isOutcome = true) (x : Task) :
    ¬Starts m m' x := by
  rintro ⟨⟨place, key, compute, -, -, -, control⟩, -⟩
  rw [control] at h
  cases h

theorem not_starts_of_ne {p : Program} (hc : m.control = .eval p)
    (hp : ∀ place key compute, p ≠ .get place key compute) (x : Task) : ¬Starts m m' x := by
  rintro ⟨⟨place, key, compute, control, -⟩, -⟩
  rw [hc] at control
  exact hp place key compute (Control.eval.inj control)

/-- A step that starts no computation calls none. -/
theorem leavesUncalled_of_not_starts (h : ∀ x, ¬Starts m m.step x) : m.LeavesUncalled :=
  (starts_or_leavesUncalled m).resolve_left (not_exists.mpr h)

theorem Move.starts_or_leavesUncalled (h : Move m m') :
    (∃ x, Starts m m' x) ∨ m.LeavesUncalled := by
  cases h with
  | step => exact Machine.starts_or_leavesUncalled m
  | next hend =>
    have hended : m.control.isOutcome = true := ((outcome?_isSome_iff m).mp hend).2
    exact .inr (leavesUncalled_of_not_starts (not_starts_of_isOutcome hended))

/-- The fault that a request on `thread` meets for a key that is marked for `owner`. -/
def refusal (label : Label) (owner thread : Thread) (shown : Spelled) : Fault :=
  if owner = thread then .reentrant label shown else .busy label shown

/-- While no view is active, a request for a marked key is refused, and changes nothing. -/
theorem step_get_of_marked {owner : Thread} (control : m.control = .eval (.get place key compute))
    (hkey : key.key = .ok k) (found : m.session.resources[place.id]? = some (.stable c))
    (free : c.guard.isBorrowed = false) (marked : c.pending.get? k = some owner)
    (absent : c.slots.get? k = none) (showable : k.isShowable = true) :
    ∃ shown : Spelled, shown.value = key ∧
      m.step.control = .raise (refusal c.label owner m.session.thread shown) ∧
      m.step.stack = m.stack ∧ m.step.session.shared = m.session.shared := by
  obtain ⟨shown, hshown⟩ := (m.session.spelled_isOk_iff hkey).mpr showable
  have hstart : c.start m.session.thread (m.session.request key) =
      .error (refusal c.label owner m.session.thread shown) := by
    rw [StableCache.start_of_marked free (Request.index_eq_ok_iff.mpr hkey) absent marked,
      Request.fault_of_spelled hshown]
    unfold refusal
    split <;> rfl
  rw [step_eq_getStable control found, getStable, hstart]
  exact ⟨shown, Request.value_of_spelled hshown, rfl, rfl, Session.shared_report ..⟩

/-- While no view is active, a request for a key that is not marked is answered with the stored
value, or its computation is called. -/
theorem step_get_of_unmarked (control : m.control = .eval (.get place key compute))
    (hkey : key.key = .ok k) (found : m.session.resources[place.id]? = some (.stable c))
    (free : c.guard.isBorrowed = false) (unmarked : c.pending.get? k = none)
    (showable : k.isShowable = true) :
    (∃ v, c.slots.get? k = some v ∧ m.step.control = .give v ∧ m.step.stack = m.stack) ∨
      ∃ shown, m.step.control = .eval (compute key) ∧
        m.step.stack = .computing place.id shown k :: m.stack := by
  obtain ⟨shown, hshown⟩ := (m.session.spelled_isOk_iff hkey).mpr showable
  have hindex : (m.session.request key).index = .ok k := Request.index_eq_ok_iff.mpr hkey
  -- the key can be shown, so nothing but the guard and the mark could be in the way
  rw [step_eq_getStable control found, getStable]
  cases hslot : c.slots.get? k with
  | some v =>
    have hfree := Guard.obstacle?_of_not_isBorrowed free .read
    rw [StableCache.start_eq_hit_iff.mpr ⟨hfree, ⟨k, hindex, hslot⟩, rfl⟩]
    exact .inl ⟨v, rfl, rfl, rfl⟩
  | none =>
    rw [StableCache.start_eq_miss_iff.mpr ⟨free, hindex, hslot, unmarked, hshown, rfl⟩]
    exact .inr ⟨shown, rfl, rfl⟩

/-- The outcome of a computation for a stable cache is given to the cache, which has the last word
on it. -/
theorem step_computing {id : Nat} {key : Spelled} {k : Key} {rest : List Frame} {c : StableCache}
    {outcome : Except Fault Value} (control : m.control = .ofOutcome outcome)
    (stack : m.stack = .computing id key k :: rest)
    (found : m.session.resources[id]? = some (.stable c)) :
    m.step.control = .ofOutcome (c.finish key k outcome).outcome ∧ m.step.stack = rest ∧
      m.step.session.shared =
        m.session.shared.set id (.stable (c.finish key k outcome).cache) := by
  obtain ⟨control', stack', s⟩ := m
  obtain rfl : control' = .ofOutcome outcome := control
  obtain rfl : stack' = .computing id key k :: rest := stack
  have hstep : (⟨.ofOutcome outcome, .computing id key k :: rest, s⟩ : Machine).step =
      finish id key k outcome rest s := by
    cases outcome <;> rfl
  rw [hstep, finish, show s.resources[id]? = some (.stable c) from found]
  dsimp only
  cases (c.finish key k outcome).outcome <;> exact ⟨rfl, rfl, Session.shared_foldl_report ..⟩

/-! ### Inspections -/

theorem step_contains {stack : List Frame} {s : Session} {r : Resource}
    (found : s.resources[place.id]? = some r) :
    (⟨.eval (.contains place key), stack, s⟩ : Machine).step =
      reply stack ((r.contains (s.request key)).map Value.bool, s) := by
  have hresource : s.resource place.id = .ok r := by
    rw [Session.resource, found]
  have hinspect : s.inspect (.contains place key) =
      ((r.contains (s.request key)).map Value.bool, s) := by
    simp only [Session.inspect, hresource, ok_bind]
    cases r.contains (s.request key) <;> rfl
  show reply stack (s.inspect (.contains place key)) = _
  rw [hinspect]

theorem step_size {stack : List Frame} {s : Session} {r : Resource}
    (found : s.resources[place.id]? = some r) :
    (⟨.eval (.perform (.inspect (.size place))), stack, s⟩ : Machine).step =
      reply stack ((r.size (s.request .null)).map fun n : Nat => .int n, s) := by
  have hresource : s.resource place.id = .ok r := by
    rw [Session.resource, found]
  have hinspect : s.inspect (.size place) =
      ((r.size (s.request .null)).map fun n : Nat => .int n, s) := by
    simp only [Session.inspect, hresource, ok_bind]
    cases r.size (s.request .null) <;> rfl
  show reply stack (s.inspect (.size place)) = _
  rw [hinspect]

theorem step_retrieve {stack : List Frame} {s : Session}
    (found : s.resources[place.id]? = some (.stable c)) :
    (⟨.eval (.retrieve place key), stack, s⟩ : Machine).step =
      reply stack (c.retrieve place.hint (s.request key), s) := by
  have hresource : s.resource place.id = .ok (.stable c) := by
    rw [Session.resource, found]
  have hinspect : s.inspect (.retrieve place key) =
      (c.retrieve place.hint (s.request key), s) := by
    simp only [Session.inspect, hresource, ok_bind, Resource.retrieve]
  show reply stack (s.inspect (.retrieve place key)) = _
  rw [hinspect]

end CheckedMemo.Machine
