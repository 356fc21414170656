import CheckedMemo.Proofs.Marks

/-!
# When a mark is taken away

The mark of a computation is taken away at its end exactly if no view of the cache is active then
(`cleaned_up_iff_free`).  In that case a fault is passed on as it is, nothing is stored or counted
for it, and the key can be asked for again.  A view that is still active gets in the way: the
conflict takes the place of the outcome, and the mark stays for good (`mark_left_under_view`).

What becomes of a key after the end of its computation is told by two facts on runs: a key without a
mark gets one only by a new computation, and loses that as well unless a view gets in the way again
(`unmarked_leads`); and a mark without a computation is never taken away (`Settled.leads`).
-/

namespace CheckedMemo.Machine

variable {m m' : Machine} {x : Task}

/-! ### Keys without a mark -/

theorem Strands.eq_step (h : m.Strands x) (hmove : Move m m') : m' = m.step := by
  obtain ⟨-, key, rest, c, hstack, -⟩ := h
  exact hmove.eq_step hstack

theorem Reachable.unmarked_change (hm : Reachable m)
    (hx : m.session.shared.mark x = none ∨ x ∈ m.tasks) (h : Change m m') :
    m'.session.shared.mark x = none ∨ x ∈ m'.tasks ∨ m.Strands x := by
  -- what the end of a computation of another key leaves of the two possibilities
  have others {y : Task} (hne : x ≠ y) (htasks : m.tasks = y :: m'.tasks)
      (hmark : m'.session.shared.mark x = m.session.shared.mark x) :
      m'.session.shared.mark x = none ∨ x ∈ m'.tasks ∨ m.Strands x := by
    rcases hx with hx | hx
    · exact .inl (hmark.trans hx)
    · rw [htasks] at hx
      exact .inr (.inl ((List.mem_cons.mp hx).resolve_left hne))
  -- what the start of a computation leaves of them: the mark it sets is for a key in progress
  have start {y : Task} (htasks : m'.tasks = y :: m.tasks)
      (hmark : x ≠ y → m'.session.shared.mark x = m.session.shared.mark x) :
      m'.session.shared.mark x = none ∨ x ∈ m'.tasks ∨ m.Strands x := by
    by_cases hne : x = y
    · exact .inr (.inl (htasks ▸ hne ▸ List.mem_cons_self))
    · rcases hx with hx | hx
      · exact .inl ((hmark hne).trans hx)
      · exact .inr (.inl (htasks ▸ List.mem_cons_of_mem y hx))
  cases hm.advance h with
  | calm contents computations =>
    rw [contents.mark, ← map_task_computations, computations, map_task_computations]
    exact hx.imp_right .inl
  | startStable y c starts found unstored unmarked stored mark computations =>
    exact start (tasks_of_computations computations) fun hne => by rw [mark, if_neg hne]
  | startValue y c starts found fresh unstored contents computations =>
    exact start (tasks_of_computations computations) fun _ => contents.mark x
  | drop y finishes stored hothers own computations =>
    by_cases hne : x = y.task
    · subst hne
      rcases own with ⟨-, hmark⟩ | ⟨hstrands, -⟩
      · exact .inl hmark
      · exact .inr (.inr hstrands)
    · exact others hne (tasks_of_computations computations) (hothers x hne)
  | keep y v finishes control value stored hothers own computations =>
    by_cases hne : x = y.task
    · subst hne
      exact .inl own
    · exact others hne (tasks_of_computations computations) (hothers x hne)

/-- A key without a mark stays without one, unless it is computed again, or a computation of it ends
while a view of the cache is active. -/
theorem Reachable.unmarked_leads (hm : Reachable m) (hx : m.session.shared.mark x = none)
    (h : Leads m m') :
    m'.session.shared.mark x = none ∨ x ∈ m'.tasks ∨
      ∃ n : Machine, Leads m n ∧ Leads n.step m' ∧ n.Strands x := by
  induction h with
  | refl => exact .inl hx
  | @tail b d hleads hmove ih =>
    have hchange (hb : b.session.shared.mark x = none ∨ x ∈ b.tasks) :
        d.session.shared.mark x = none ∨ x ∈ d.tasks ∨
          ∃ n : Machine, Leads m n ∧ Leads n.step d ∧ n.Strands x := by
      rcases (hm.leads hleads).unmarked_change hb hmove.change with hmark | htasks | hstrands
      · exact .inl hmark
      · exact .inr (.inl htasks)
      · exact .inr (.inr ⟨b, hleads, hstrands.eq_step hmove ▸ .refl, hstrands⟩)
    rcases ih with ih | ih | ⟨n, hn, hnb, hstrands⟩
    · exact hchange (.inl ih)
    · exact hchange (.inr ih)
    · exact .inr (.inr ⟨n, hn, hnb.tail hmove, hstrands⟩)

/-- A computation that meets a view at its end leaves its key with the mark and without a value. -/
theorem Strands.settled (hm : Reachable m) (h : m.Strands x) :
    m.step.Settled x ∧ m.step.session.shared.stored x = none ∧
      m.step.session.shared.mark x = m.session.shared.mark x := by
  obtain ⟨hcontrol, key, rest, c, hstack, found, hborrowed⟩ := h
  obtain ⟨outcome, houtcome⟩ := eq_ofOutcome hcontrol
  obtain ⟨-, hrest, hshared⟩ := step_computing houtcome hstack found
  obtain ⟨-, -, hcache, -⟩ := StableCache.finish_of_borrowed hborrowed key x.key outcome
  have halike : m.session.shared.Alike m.step.session.shared := by
    rw [hshared, hcache]
    exact .of_set (c := m.session.shared) found rfl rfl
  have htasks : m.tasks = x :: m.step.tasks := by
    rw [tasks, hstack, tasks, hrest]
    rfl
  have hdistinct : (x :: m.step.tasks).Nodup := htasks ▸ hm.sound.distinct
  have hmem : (⟨x, m.session.thread⟩ : Computation) ∈ m.computations := by
    rw [computations, hstack]
    exact List.mem_cons_self
  -- the key was marked when the computation started, and is so to its end
  have hmarked : m.session.shared.mark x ≠ none := by
    rw [Shared.mark_of_found (c := m.session.shared) found]
    exact (hm.marked hmem found).1 ▸ Option.some_ne_none _
  refine ⟨⟨(List.nodup_cons.mp hdistinct).1, .inr ?_⟩, ?_, halike.mark x⟩
  · rw [halike.mark]
    exact hmarked
  · rw [halike.stored]
    exact hm.sound.unstored x (htasks ▸ List.mem_cons_self)

/-! ### One request -/

variable {key : Value} {compute : Value → Program} {c : StableCache} {shown : Spelled}

/-- The request is answered with the stored value, or its computation is called. -/
def Serves (m : Machine) (x : Task) : Prop :=
  (∃ v, m.session.shared.stored x = some v ∧ m.step.control = .give v ∧ m.step.stack = m.stack) ∨
    Starts m m.step x

/-- A request that calls no computation ends at once and leaves no mark, and one that calls its
computation leaves nothing but the mark. -/
theorem Requests.step_cases (h : m.Requests x key compute)
    (found : m.session.resources[x.cache]? = some (.stable c)) :
    (m.step.stack = m.stack ∧ m.step.control.isOutcome = true ∧
      ∀ y, m.step.session.shared.mark y = m.session.shared.mark y) ∨
    ∃ shown, m.step.stack = .computing x.cache shown x.key :: m.stack ∧
      m.step.control = .eval (compute key) ∧ x.key.isShowable = true ∧
      m.step.session.shared = m.session.shared.set x.cache
        (.stable { c with pending := c.pending.insert x.key m.session.thread }) := by
  obtain ⟨place, control, hplace, hkey⟩ := h
  have found' : m.session.resources[place.id]? = some (.stable c) := hplace ▸ found
  rcases step_get_cases control found' with
    ⟨f, hraise, hstack, hshared⟩ | ⟨k, v, -, -, hgive, hstack, hshared⟩ |
    ⟨shown, k, hk, -, -, hshowable, hcall, hstack, hshared⟩
  · left
    refine ⟨hstack, by rw [hraise]; rfl, ?_⟩
    intro y
    rw [hshared]
  · left
    have halike : m.session.shared.Alike m.step.session.shared := by
      rw [hshared]
      exact .of_set (c := m.session.shared) found' rfl rfl
    exact ⟨hstack, by rw [hgive]; rfl, halike.mark⟩
  · right
    obtain rfl : x.key = k := Except.ok.inj (hkey.symm.trans hk)
    exact ⟨shown, hplace ▸ hstack, hcall, hshowable, hplace ▸ hshared⟩

/-- While no view is active, a request for a key without a mark is served. -/
theorem Requests.serves (h : m.Requests x key compute)
    (found : m.session.resources[x.cache]? = some (.stable c)) (free : c.guard.isBorrowed = false)
    (unmarked : m.session.shared.mark x = none) (showable : x.key.isShowable = true) :
    m.Serves x := by
  obtain ⟨place, control, hplace, hkey⟩ := h
  have found' : m.session.resources[place.id]? = some (.stable c) := hplace ▸ found
  rw [Shared.mark_of_found (c := m.session.shared) found] at unmarked
  rcases step_get_of_unmarked control hkey found' free unmarked showable with
    ⟨v, hslot, hgive, hstack⟩ | ⟨shown, hcall, hstack⟩
  · left
    refine ⟨v, ?_, hgive, hstack⟩
    rw [Shared.stored_of_found (c := m.session.shared) found]
    exact hslot
  · right
    exact ⟨⟨place, key, compute, control, hplace, hkey, hcall⟩, _, _, hstack, hplace ▸ rfl,
      List.suffix_rfl⟩

/-- A request for a key that is marked but has no value is refused. -/
theorem Requests.refused {owner : Thread} (h : m.Requests x key compute)
    (found : m.session.resources[x.cache]? = some (.stable c))
    (marked : m.session.shared.mark x = some owner) (unstored : m.session.shared.stored x = none)
    (showable : x.key.isShowable = true) :
    (∃ f, m.step.control = .raise f) ∧ (c.guard.isBorrowed = false → ∃ shown,
      m.step.control = .raise (refusal c.label owner m.session.thread shown)) := by
  obtain ⟨place, control, hplace, hkey⟩ := h
  have found' : m.session.resources[place.id]? = some (.stable c) := hplace ▸ found
  rw [Shared.mark_of_found (c := m.session.shared) found] at marked
  rw [Shared.stored_of_found (c := m.session.shared) found] at unstored
  constructor
  · rcases step_get_cases control found' with
      ⟨f, hraise, -⟩ | ⟨k, v, hk, hslot, -⟩ | ⟨shown, k, hk, -, hnone, -⟩
    · exact ⟨f, hraise⟩
    · obtain rfl : x.key = k := Except.ok.inj (hkey.symm.trans hk)
      cases unstored.symm.trans hslot
    · obtain rfl : x.key = k := Except.ok.inj (hkey.symm.trans hk)
      cases marked.symm.trans hnone
  · intro free
    obtain ⟨shown, -, hraise, -⟩ :=
      step_get_of_marked control hkey found' free marked unstored showable
    exact ⟨shown, hraise⟩

/-! ### The end of the computation -/

/-- What the end of the computation of `k` makes of a stable cache `c` that is `c'` afterwards, and
of its outcome: `before` is the control that hands the outcome over, `after` the one that the
request ends with. -/
structure EndOfComputation (c c' : StableCache) (k : Key) (shown : Spelled)
    (before after : Control) : Prop where
  unmarked_iff : c'.pending.get? k = none ↔ c.guard.isBorrowed = false
  raised (f : Fault) (h : before = .raise f) :
    c'.slots = c.slots ∧ c'.hits = c.hits ∧ c'.misses = c.misses
  propagated (f : Fault) (h : before = .raise f) (free : c.guard.isBorrowed = false) :
    after = .raise f
  returned (v : Value) (h : before = .give v) (free : c.guard.isBorrowed = false) :
    after = .give v ∧ StoredAsMiss c c' k v
  obstructed (h : c.guard.isBorrowed = true) : c' = c ∧ ∃ active,
    c.guard.obstacle? .write = some active ∧
      after = .raise (.conflict c.label .write active shown)

theorem endOfComputation_finish {c : StableCache} {k : Key} (habsent : c.slots.get? k = none)
    (hmarked : c.pending.get? k ≠ none) (shown : Spelled) (outcome : Except Fault Value) :
    EndOfComputation c (c.finish shown k outcome).cache k shown (.ofOutcome outcome)
      (.ofOutcome (c.finish shown k outcome).outcome) where
  unmarked_iff := StableCache.unmarked_finish_iff hmarked shown outcome
  raised f h := by
    cases outcome with
    | ok v => cases h
    | error g => exact StableCache.finish_error c shown k g
  propagated f h free := by
    cases outcome with
    | ok v => cases h
    | error g =>
      rw [StableCache.finish_error_of_free free]
      exact h
  returned v h free := by
    cases outcome with
    | error g => cases h
    | ok w =>
      cases h
      rw [StableCache.finish_ok_of_free free]
      refine ⟨?_, storedAsMiss_deposit habsent v⟩
      simp [habsent, Control.ofOutcome]
  obstructed h := by
    obtain ⟨active, hactive, hcache, houtcome⟩ :=
      StableCache.finish_of_borrowed h shown k outcome
    exact ⟨hcache, active, hactive, by rw [houtcome]; rfl⟩

/-- The request ends right after its computation, with the mark that it has left at its start. -/
theorem Requests.ends (hm : Reachable m) (h : m.Requests x key compute)
    (found : m.session.resources[x.cache]? = some (.stable c))
    (hstack : m.step.stack = .computing x.cache shown x.key :: m.stack)
    (hshared : m.step.session.shared = m.session.shared.set x.cache
      (.stable { c with pending := c.pending.insert x.key m.session.thread }))
    (hends : Ends (.computing x.cache shown x.key :: m.stack) m.step m') :
    ∃ c₁ c₂, m'.session.resources[x.cache]? = some (.stable c₁) ∧
      m'.step.session.resources[x.cache]? = some (.stable c₂) ∧ m'.step.stack = m.stack ∧
      c₁.slots.get? x.key = none ∧ c₁.pending.get? x.key = some m.session.thread ∧
      EndOfComputation c₁ c₂ x.key shown m'.control m'.step.control := by
  obtain ⟨place, control, -⟩ := h
  have hsuffix : .computing x.cache shown x.key :: m.stack <:+ m.step.stack := ⟨[], hstack.symm⟩
  have hmove : Move m m.step := .step (outcome?_eq_none_of_eval control)
  have hm' : Reachable m' := (hm.move hmove).leads (hends.leads hsuffix)
  have hframe : m'.stack = .computing x.cache shown x.key :: m.stack := hends.stack_eq
  obtain ⟨-, c₁, found₁⟩ := hm'.framed.hosted (hframe ▸ List.mem_cons_self)
  have hunstored : m'.session.shared.stored x = none := by
    refine hm'.sound.unstored x ?_
    rw [tasks, hframe]
    exact List.mem_cons_self
  -- the mark is still the one that was set when the computation started
  have hmarked : m'.session.shared.mark x = some m.session.thread := by
    rw [(hm.move hmove).mark_of_ends rfl hsuffix hends, hshared,
      Shared.mark_set_own (c := m.session.shared) found]
    simp [Resource.pending]
  rw [Shared.stored_of_found found₁] at hunstored
  rw [Shared.mark_of_found found₁] at hmarked
  have hpending : c₁.pending.get? x.key ≠ none := by
    rw [show c₁.pending.get? x.key = some m.session.thread from hmarked]
    exact Option.some_ne_none _
  obtain ⟨outcome, houtcome⟩ := eq_ofOutcome hends.isOutcome
  obtain ⟨hcontrol, hrest, hshared'⟩ := step_computing houtcome hframe found₁
  have found₂ : m'.step.session.resources[x.cache]? =
      some (.stable (c₁.finish shown x.key outcome).cache) := by
    show m'.step.session.shared.resources[x.cache]? = _
    rw [hshared', Shared.getElem?_resources_set found₁, if_pos rfl]
  refine ⟨c₁, _, found₁, found₂, hrest, hunstored, hmarked, ?_⟩
  rw [houtcome, hcontrol]
  exact endOfComputation_finish hunstored hpending shown outcome

/-! ### Later requests -/

/-- When the mark was taken away, a later request is served, unless the key is computed at that time
or a computation of it has met a view in between. -/
theorem Reachable.serves_later (hm : Reachable m) (hx : m.session.shared.mark x = none)
    (hleads : Leads m m') (h : m'.Requests x key compute)
    (found : m'.session.resources[x.cache]? = some (.stable c)) (free : c.guard.isBorrowed = false)
    (showable : x.key.isShowable = true) (hended : x ∉ m'.tasks)
    (hstrands : ∀ n : Machine, Leads m n → Leads n.step m' → ¬n.Strands x) : m'.Serves x := by
  rcases hm.unmarked_leads hx hleads with hunmarked | htasks | ⟨n, hn, hn', hstranded⟩
  · exact h.serves found free hunmarked showable
  · exact absurd htasks hended
  · exact absurd hstranded (hstrands n hn hn')

/-- When the mark has stayed because of a view, every later request is refused. -/
theorem Strands.refused_later (hm : Reachable m) (hstrands : m.Strands x)
    (hleads : Leads m.step m') (h : m'.Requests x key compute)
    (found : m'.session.resources[x.cache]? = some (.stable c))
    (showable : x.key.isShowable = true) {owner : Thread}
    (hmarked : m.session.shared.mark x = some owner) :
    (∃ f, m'.step.control = .raise f) ∧ (c.guard.isBorrowed = false → ∃ shown,
      m'.step.control = .raise (refusal c.label owner m'.session.thread shown)) := by
  have hm' : Reachable m.step := by
    obtain ⟨-, key, rest, c, hstack, -⟩ := hstrands
    exact hm.move (.step (outcome?_eq_none_of_stack hstack))
  obtain ⟨hsettled, hunstored, hmark⟩ := hstrands.settled hm
  obtain ⟨-, hstored', hmark'⟩ := hsettled.leads hm' hleads
  exact h.refused found ((hmark'.trans hmark).trans hmarked) (hstored'.trans hunstored) showable

/-! ### Main statement -/

/-- **A mark is taken away exactly if no view is active.**  A request that calls no computation
is over at once and leaves no mark, and one that does leaves nothing but the mark until the
computation ends.  Then the mark is taken away exactly if no view of the cache is active; if so, a
fault is passed on as it is with nothing stored or counted for it (`EndOfComputation`), and later
requests are served again.  If a view is active, a conflict is raised in place of the outcome, and
later requests for the key are all refused. -/
theorem cleaned_up_iff_free (hm : Reachable m) (h : m.Requests x key compute)
    (found : m.session.resources[x.cache]? = some (.stable c)) :
    (m.step.stack = m.stack ∧ m.step.control.isOutcome = true ∧
      ∀ y, m.step.session.shared.mark y = m.session.shared.mark y) ∨
    ∃ shown, m.step.stack = .computing x.cache shown x.key :: m.stack ∧
      m.step.control = .eval (compute key) ∧
      m.step.session.resources[x.cache]? =
        some (.stable { c with pending := c.pending.insert x.key m.session.thread }) ∧
      ∀ m₁, Ends (.computing x.cache shown x.key :: m.stack) m.step m₁ →
        ∃ c₁ c₂, m₁.session.resources[x.cache]? = some (.stable c₁) ∧
          m₁.step.session.resources[x.cache]? = some (.stable c₂) ∧ m₁.step.stack = m.stack ∧
          c₁.slots.get? x.key = none ∧ c₁.pending.get? x.key = some m.session.thread ∧
          EndOfComputation c₁ c₂ x.key shown m₁.control m₁.step.control ∧
          ∀ m₂ key' compute' c₃, Leads m₁.step m₂ → m₂.Requests x key' compute' →
            m₂.session.resources[x.cache]? = some (.stable c₃) →
            (c₁.guard.isBorrowed = false → c₃.guard.isBorrowed = false → x ∉ m₂.tasks →
              (∀ n, Leads m₁.step n → Leads n.step m₂ → ¬n.Strands x) → m₂.Serves x) ∧
            (c₁.guard.isBorrowed = true → (∃ f, m₂.step.control = .raise f) ∧
              (c₃.guard.isBorrowed = false → ∃ shown', m₂.step.control =
                .raise (refusal c₃.label m.session.thread m₂.session.thread shown'))) := by
  rcases h.step_cases found with hover | ⟨shown, hstack, hcall, hshowable, hshared⟩
  · exact .inl hover
  refine .inr ⟨shown, hstack, hcall, ?_, ?_⟩
  · show m.step.session.shared.resources[x.cache]? = _
    rw [hshared, Shared.getElem?_resources_set (c := m.session.shared) found, if_pos rfl]
  intro m₁ hends
  obtain ⟨c₁, c₂, found₁, found₂, hrest, habsent, hmarked, hend⟩ :=
    h.ends hm found hstack hshared hends
  refine ⟨c₁, c₂, found₁, found₂, hrest, habsent, hmarked, hend, ?_⟩
  have hsuffix : .computing x.cache shown x.key :: m.stack <:+ m.step.stack := ⟨[], hstack.symm⟩
  have hm₁ : Reachable m₁ := by
    obtain ⟨place, control, -⟩ := h
    exact (hm.move (.step (outcome?_eq_none_of_eval control))).leads (hends.leads hsuffix)
  have hm₂ : Reachable m₁.step := hm₁.move (.step (outcome?_eq_none_of_stack hends.stack_eq))
  intro m₂ key' compute' c₃ hleads h' found₃
  constructor
  · intro free₁ free₃ hended hstrands
    have hunmarked : m₁.step.session.shared.mark x = none := by
      rw [Shared.mark_of_found (c := m₁.step.session.shared) found₂]
      exact hend.unmarked_iff.mpr free₁
    exact hm₂.serves_later hunmarked hleads h' found₃ free₃ hshowable hended hstrands
  · intro hborrowed
    have hstrands : m₁.Strands x :=
      ⟨hends.isOutcome, shown, m.stack, c₁, hends.stack_eq, found₁, hborrowed⟩
    refine hstrands.refused_later hm₁ hleads h' found₃ hshowable ?_
    rw [Shared.mark_of_found (c := m₁.session.shared) found₁]
    exact hmarked

/-- A failure that a computation makes up. -/
def boom : Thrown := { kind := .badValue, message := "boom" }

/-- Asks for `k`, whose computation asks for `j` and then fails on another thread. -/
def failingGet (place : Place) : Program :=
  .get place (.text "k") fun _ =>
    .andThen (.get place (.text "j") fun _ => .done (.int 1)) (.on "worker" (.fail boom))

/-- The machine that asks a new stable cache for `k`. -/
def requestingFailing : Machine :=
  (load (.andThen (.perform (.create (.stable "c" none))) (.reach (.named "c") failingGet))
    (.start .events [])).run 4

/-- The machine at which the computation of `k` has failed. -/
def failing : Machine := requestingFailing.step.run 8

/-- The machine that asks for `k` again. -/
def requestingLater : Machine :=
  load (.get ⟨0, none⟩ (.text "k") fun _ => .done (.int 2)) failing.step.session

theorem cleaned_up_iff_free_failingGet :
    Reachable requestingFailing ∧
      (∃ compute, requestingFailing.Requests ⟨0, .ofAtoms [.text "k"]⟩ (.text "k") compute) ∧
      ∃ shown c₁ c₂,
        Ends [.computing 0 shown (.ofAtoms [.text "k"])] requestingFailing.step failing ∧
        failing.session.resources[0]? = some (.stable c₁) ∧
        failing.step.session.resources[0]? = some (.stable c₂) ∧
        EndOfComputation c₁ c₂ (.ofAtoms [.text "k"]) shown failing.control failing.step.control ∧
        failing.control = .raise (.thrown boom) ∧ failing.step.control = .raise (.thrown boom) ∧
        c₂.pending.get? (.ofAtoms [.text "k"]) = none ∧ Leads failing.step requestingLater ∧
        requestingLater.Serves ⟨0, .ofAtoms [.text "k"]⟩ := by
  have hm : Reachable requestingFailing := (Reachable.start ..).leads (leads_run ..)
  obtain ⟨compute, h⟩ : ∃ compute,
      requestingFailing.Requests ⟨0, .ofAtoms [.text "k"]⟩ (.text "k") compute :=
    ⟨_, _, rfl, rfl, rfl⟩
  obtain ⟨c, found⟩ : ∃ c, requestingFailing.session.resources[0]? = some (.stable c) := ⟨_, rfl⟩
  rcases cleaned_up_iff_free hm h found with ⟨hover, -⟩ | ⟨shown, hstack, -, -, hend⟩
  · cases hover
  have hends : Ends [.computing 0 shown (.ofAtoms [.text "k"])] requestingFailing.step failing :=
    .of_find? 9 ⟨[], hstack.symm⟩ rfl
  obtain ⟨c₁, c₂, found₁, found₂, -, -, -, hend, hlater⟩ := hend failing hends
  have free₁ : c₁.guard.isBorrowed = false := by
    cases found₁
    rfl
  have hnext : Move failing.step requestingLater := .next rfl _
  have hm₁ : Reachable failing.step :=
    ((hm.move (.step rfl)).leads (leads_run 8 _)).move (.step rfl)
  have hserves : requestingLater.Serves ⟨0, .ofAtoms [.text "k"]⟩ := by
    obtain ⟨hserves, -⟩ := hlater requestingLater (.text "k") _ c₂ (.single hnext)
      ⟨_, rfl, rfl, rfl⟩ found₂
    refine hserves free₁ ?_ List.not_mem_nil ?_
    · cases found₂
      rfl
    · -- a view that had been in the way would have left a mark
      intro n hn hleads hstrands
      have hn' : Reachable n := hm₁.leads hn
      have hn'' : Reachable n.step := by
        obtain ⟨-, key, rest, c, hstack, -⟩ := id hstrands
        exact hn'.move (.step (outcome?_eq_none_of_stack hstack))
      obtain ⟨hsettled, hstored, -⟩ := hstrands.settled hn'
      obtain ⟨-, -, hmark⟩ := hsettled.leads hn'' hleads
      have hnone : requestingLater.session.shared.mark ⟨0, .ofAtoms [.text "k"]⟩ = none := rfl
      exact hsettled.blocked.elim (absurd hstored) (absurd (hmark.symm.trans hnone))
  exact ⟨hm, ⟨compute, h⟩, shown, c₁, c₂, hends, found₁, found₂, hend, rfl,
    hend.propagated _ rfl free₁, hend.unmarked_iff.mpr free₁, .single hnext, hserves⟩

/-- Asks for `k`, whose computation leaves a view of the cache open and fails. -/
def viewLeftOpen (place : Place) : Program :=
  .get place (.text "k") fun key =>
    .andThen (.perform (.view (.openAs "v" place .read key))) (.fail boom)

/-- The machine that asks a new stable cache for `k`. -/
def requestingUnderView : Machine :=
  (load (.andThen (.perform (.create (.stable "c" none))) (.reach (.named "c") viewLeftOpen))
    (.start .events [])).run 4

/-- The machine at which the computation of `k` has failed. -/
def failingUnderView : Machine := requestingUnderView.step.run 4

/-- The machine at which the view has been closed after that. -/
def closed : Machine :=
  (load (.perform (.view (.close "v" none))) failingUnderView.step.session).step

/-- The machine that asks for `k` again. -/
def requestingClosed : Machine :=
  load (.get ⟨0, none⟩ (.text "k") fun _ => .done (.int 1)) closed.session

/-- A request whose computation leaves a view of the cache open neither passes the fault on nor
takes its mark away.  When the view has been closed, and nothing is computed any more, another
request for the key is refused as re-entrant. -/
theorem mark_left_under_view :
    Reachable requestingUnderView ∧
      (∃ compute, requestingUnderView.Requests ⟨0, .ofAtoms [.text "k"]⟩ (.text "k") compute) ∧
      (∃ shown, Ends [.computing 0 shown (.ofAtoms [.text "k"])] requestingUnderView.step
        failingUnderView) ∧
      failingUnderView.control = .raise (.thrown boom) ∧
      failingUnderView.step.control ≠ .raise (.thrown boom) ∧
      failingUnderView.step.session.shared.mark ⟨0, .ofAtoms [.text "k"]⟩ = some "main" ∧
      Leads failingUnderView.step requestingClosed ∧ requestingClosed.tasks = [] ∧
      (∃ c, requestingClosed.session.resources[0]? = some (.stable c) ∧
        c.guard.isBorrowed = false) ∧
      (∃ compute, requestingClosed.Requests ⟨0, .ofAtoms [.text "k"]⟩ (.text "k") compute) ∧
      ∃ label shown, requestingClosed.step.control = .raise (.reentrant label shown) := by
  have hm : Reachable requestingUnderView := (Reachable.start ..).leads (leads_run ..)
  obtain ⟨shown, hstack⟩ : ∃ shown, requestingUnderView.step.stack =
      [.computing 0 shown (.ofAtoms [.text "k"])] := ⟨_, rfl⟩
  have hends : Ends [.computing 0 shown (.ofAtoms [.text "k"])] requestingUnderView.step
      failingUnderView := .of_find? 5 ⟨[], hstack.symm⟩ rfl
  have hchanged : failingUnderView.step.control ≠ .raise (.thrown boom) := by
    rintro ⟨⟩
  have hclosed : Leads failingUnderView.step closed :=
    Relation.ReflTransGen.head (.next rfl _) (.single (.step rfl))
  exact ⟨hm, ⟨_, _, rfl, rfl, rfl⟩, ⟨shown, hends⟩, rfl, hchanged, rfl,
    hclosed.tail (.next rfl _), rfl, ⟨_, rfl, rfl⟩, ⟨_, _, rfl, rfl, rfl⟩, _, _, rfl⟩

end CheckedMemo.Machine
