import CheckedMemo.Proofs.Refusals
import CheckedMemo.Proofs.SingleComputation
import CheckedMemo.Proofs.ThreadCaches
import CheckedMemo.Proofs.Trails
import Mathlib.Data.List.TFAE

/-!
# Five ways to look a key up

A cache whose keys are populated and retrieved is asked for a key by a test, a retrieval, a peek, a
request for its value, or by populating it again.  `lookups_agree` says that all of these find the
same: either each finds the value that was computed first (`Machine.FirstFor`), or none finds one,
and then a retrieval is refused and changes nothing.

What a retrieval does is a test and then a peek, and whatever views are active, the peek never fails
after the test has succeeded (`StableCache.kind_of_retrieve`).
-/

namespace CheckedMemo

namespace StableCache

variable {c : StableCache} {r : Request} {k : Key} {hint : Option String} {f : Fault}

theorem retrieve_of_found (hfree : c.guard.obstacle? .read = none) (hk : r.index = .ok k)
    {v : Value} (hv : c.slots.get? k = some v) : c.retrieve hint r = .ok v := by
  rw [retrieve, contains_eq hfree hk, ok_bind, hv]
  exact peek_eq_ok_iff.mpr ⟨hfree, k, hk, hv⟩

theorem retrieve_of_absent (hfree : c.guard.obstacle? .read = none) (hk : r.index = .ok k)
    (absent : c.slots.get? k = none) :
    c.retrieve hint r = .error (r.fault (.notPopulated c.label hint)) := by
  rw [retrieve, contains_eq hfree hk, ok_bind, absent]
  rfl

/-- Whatever a look-up fails with, it is not that there is no value. -/
theorem kind_of_find (h : c.find r = .error f) : f.kind ≠ .missingKey := by
  unfold find at h
  cases hactive : c.guard.obstacle? .read with
  | some active =>
    rw [Guard.allow_of_obstacle hactive] at h
    cases h
    rw [Request.kind_fault_conflict]
    split <;> decide
  | none =>
    rw [Guard.allow_of_free hactive, ok_bind] at h
    cases hkey : r.key.key with
    | ok k =>
      rw [Request.index_eq_ok_iff.mpr hkey] at h
      cases h
    | error u =>
      rw [Request.index_of_unhashable hkey] at h
      cases h
      exact Kind.noConfusion

/-- A retrieval never fails as a peek does: where the test has found a value, so does the peek. -/
theorem kind_of_retrieve (h : c.retrieve hint r = .error f) : f.kind ≠ .missingKey := by
  unfold retrieve contains at h
  cases hfind : c.find r with
  | error g =>
    rw [hfind] at h
    cases h
    exact kind_of_find hfind
  | ok o =>
    rw [hfind, ok_bind] at h
    cases o with
    | some v =>
      rw [peek, hfind] at h
      cases h
    | none =>
      cases h
      rcases r.fault_cases (.notPopulated c.label hint) with ⟨shown, -, -, hfault⟩ | ⟨-, hfault⟩
      · rw [hfault]
        exact Kind.noConfusion
      · rw [hfault]
        exact Kind.noConfusion

end StableCache

/-! ### Caches that are populated and retrieved -/

/-- The places of caches whose keys are populated and retrieved: of a scoped cache, or of the cache
that a per-thread cache has for some thread. -/
inductive Session.Scoped (s : Session) : Place → Prop where
  | named {name : String} {id : Nat} {hint : Option String}
    (h : s.names.get? name = some (.scoped id hint)) : Scoped s ⟨id, hint⟩
  | part {id r : Nat} {c : Confined} {t : Thread} (found : s.confined[id]? = some c)
    (h : c.caches.get? t = some r) : Scoped s ⟨r, c.hint⟩

namespace Machine

variable {m m' : Machine}

/-- What a scoped name stands for is a stable cache, before and after a move. -/
theorem Revision.hosted_scoped (h : Revision m m')
    (keeps : m.session.shared.Keeps m'.session.shared)
    (hm : ∀ name id hint, m.session.names.get? name = some (.scoped id hint) →
      ∃ c, m.session.resources[id]? = some (.stable c))
    {name : String} {id : Nat} {hint : Option String}
    (hname : m'.session.names.get? name = some (.scoped id hint)) :
    ∃ c, m'.session.resources[id]? = some (.stable c) := by
  have hstable (hold : m.session.names.get? name = some (.scoped id hint)) :
      ∃ c, m'.session.resources[id]? = some (.stable c) := by
    obtain ⟨c, found⟩ := hm name id hint hold
    obtain ⟨r, found', hsort⟩ := keeps id _ found
    obtain ⟨c', rfl⟩ := hsort.stable
    exact ⟨c', found'⟩
  have hbound {name' : String} {h' : Handle}
      (hnames : m'.session.names = m.session.names.insert name' h') :
      h' = .scoped id hint ∨ m.session.names.get? name = some (.scoped id hint) := by
    rw [hnames, Table.get?_insert] at hname
    split at hname
    · exact .inl (Option.some.inj hname)
    · exact .inr hname
  cases h with
  | same registry | store _ _ _ registry | tables _ registry | hook _ _ _ _ _ registry
  | part _ _ _ _ _ registry =>
    have hnames : m'.session.names = m.session.names := congrArg Registry.names registry
    exact hstable (hnames ▸ hname)
  | resource name' h' r handle resources registry =>
    rcases hbound (congrArg Registry.names registry) with rfl | hold
    · rcases handle with hdirect | ⟨_, c, hscoped, rfl⟩
      · cases hdirect
      · cases hscoped
        exact ⟨c, by rw [resources, Array.getElem?_push, if_pos rfl]⟩
    · exact hstable hold
  | confined name' _ _ registry | override name' _ _ _ _ registry | providers name' _ _ registry =>
    rcases hbound (congrArg Registry.names registry) with hnew | hold
    · cases hnew
    · exact hstable hold

theorem Reachable.hosted_scoped (hm : Reachable m) {name : String} {id : Nat} {hint : Option String}
    (hname : m.session.names.get? name = some (.scoped id hint)) :
    ∃ c, m.session.resources[id]? = some (.stable c) := by
  obtain ⟨audience, environment, p, hm⟩ := hm
  induction hm generalizing name id hint with
  | refl => cases hname
  | tail _ hmove ih =>
    exact hmove.revision.hosted_scoped hmove.change.keeps (fun name id hint h => ih h) hname

/-- There is a stable cache at every such place. -/
theorem Reachable.stable_of_scoped (hm : Reachable m) {place : Place}
    (h : m.session.Scoped place) : ∃ c, m.session.resources[place.id]? = some (.stable c) := by
  cases h with
  | named hname => exact hm.hosted_scoped hname
  | part found hr => exact hm.orderly.hosted (by rw [Session.part, found]; exact hr)

end Machine

/-- Every target but the name of a cell or cache is found at such a place. -/
theorem Session.scoped_of_locate {s s' : Session} {target : Target} {place : Place}
    (h : s.locate target = .ok (place, s'))
    (indirect : ∀ name id, target = .named name → s.names.get? name ≠ some (.resource id)) :
    s'.Scoped place := by
  obtain ⟨id, hint⟩ := place
  rcases locate_eq_ok h with ⟨rfl, name, rfl, hname | ⟨hint', hname⟩⟩ | ⟨i, hi⟩
  · exact absurd hname (indirect name id rfl)
  · rw [locate, hname] at h
    cases h
    exact .named hname
  · obtain ⟨c, found, rfl, ⟨hr, rfl⟩ | ⟨-, rfl, rfl⟩⟩ := locateConfined_eq_ok hi
    · exact .part found hr
    · -- the part has just been made, in a per-thread cache that is otherwise the same
      obtain ⟨hi', -⟩ := Array.getElem?_eq_some_iff.mp found
      have found' : (s.confined.setIfInBounds i (c.withPart s.thread s.resources.size))[i]? =
          some (c.withPart s.thread s.resources.size) := by
        rw [Array.getElem?_setIfInBounds, if_pos rfl, if_pos hi']
      have hr : (c.withPart s.thread s.resources.size).caches.get? s.thread =
          some s.resources.size := by
        rw [Confined.withPart, Table.get?_insert, if_pos rfl]
      exact @Scoped.part _ i _ (c.withPart s.thread s.resources.size) s.thread found' hr

namespace Machine

variable {m m' : Machine} {p : Program} {place : Place} {key : Value} {k : Key}
  {c : StableCache} {x : Task} {v : Value}

/-! ### Asking in a given state -/

/-- The machine that is about to run a program in the state of `m`. -/
def doing (m : Machine) (p : Program) : Machine := { m with control := .eval p }

/-- A program that is run in the state of `m` comes to an outcome. -/
def Comes (m : Machine) (p : Program) (outcome : Except Fault Value) : Prop :=
  ∃ m', Ends m.stack (m.doing p) m' ∧ m'.control = .ofOutcome outcome

/-- A program that is run in the state of `m` comes to an outcome, and no computation is called on
the way. -/
def ComesUncalled (m : Machine) (p : Program) (outcome : Except Fault Value) : Prop :=
  ∃ m', Course m.stack (m.doing p) [] m' ∧ m'.control = .ofOutcome outcome

theorem ofOutcome_inj {o o' : Except Fault Value} (h : Control.ofOutcome o = .ofOutcome o') :
    o = o' := by
  cases o <;> cases o' <;> cases h <;> rfl

/-- A program that is answered at once comes to the answer. -/
theorem comes_iff_of_reply {outcome answer : Except Fault Value} {s : Session}
    (hstep : (m.doing p).step = reply m.stack (answer, s)) :
    m.Comes p outcome ↔ answer = outcome := by
  obtain ⟨s', hreply⟩ : ∃ s', reply m.stack (answer, s) = ⟨.ofOutcome answer, m.stack, s'⟩ := by
    cases answer with
    | ok v => exact ⟨s, rfl⟩
    | error f => exact ⟨s.report f, rfl⟩
  rw [hreply] at hstep
  have hc : (m.doing p).step.control.isOutcome = true := by
    rw [hstep]
    exact isOutcome_ofOutcome answer
  have hs : (m.doing p).step.stack = m.stack := by rw [hstep]
  constructor
  · rintro ⟨m', hends, hcontrol⟩
    obtain rfl : m' = (m.doing p).step := Ends.eq_step (m := m.doing p) hends rfl hs hc
    rw [hstep] at hcontrol
    exact ofOutcome_inj hcontrol
  · rintro rfl
    have hne : ¬((m.doing p).stack = m.stack ∧ (m.doing p).control.isOutcome = true) :=
      not_ended_of_eval rfl
    exact ⟨_, .step hne (.here hs hc), by rw [hstep]⟩

/-- A program that calls no computation calls none in its first step. -/
theorem Course.of_eval {base : List Frame} (h : Course base m [] m')
    (control : m.control = .eval p) :
    (∀ x, ¬Starts m m.step x) ∧ Course base m.step [] m' := by
  obtain ⟨htrail, hs, hc⟩ := h
  cases htrail with
  | refl =>
    rw [control] at hc
    cases hc
  | quiet hne silent _ rest => exact ⟨silent, rest, hs, hc⟩

section

variable {compute : Value → Program}

/-- What a request that calls no computation comes to: it is refused, or given what is stored. -/
theorem step_get_of_silent (control : m.control = .eval (.get place key compute))
    (hkey : key.key = .ok k) (found : m.session.resources[place.id]? = some (.stable c))
    (silent : ∀ x, ¬Starts m m.step x) :
    (∃ f, m.step.control = .raise f ∧ m.step.stack = m.stack) ∨
      ∃ v, c.slots.get? k = some v ∧ m.step.control = .give v ∧ m.step.stack = m.stack := by
  rcases step_get_cases control found with
    ⟨f, hraise, hstack, -⟩ | ⟨j, w, hj, hw, hgive, hstack, -⟩ |
      ⟨shown, j, hj, -, -, -, hcalled, hstack, -⟩
  · exact .inl ⟨f, hraise, hstack⟩
  · obtain rfl : k = j := Except.ok.inj (hkey.symm.trans hj)
    exact .inr ⟨w, hw, hgive, hstack⟩
  · exact absurd ⟨⟨place, key, compute, control, rfl, hj, hcalled⟩, _, _, hstack, rfl,
      List.suffix_rfl⟩ (silent ⟨place.id, j⟩)

theorem step_get_of_found (control : m.control = .eval (.get place key compute))
    (hkey : key.key = .ok k) (found : m.session.resources[place.id]? = some (.stable c))
    (hfree : c.guard.obstacle? .read = none) (hv : c.slots.get? k = some v) :
    m.step = ⟨.give v, m.stack, m.session.setStable place.id { c with hits := c.hits + 1 }⟩ := by
  have hindex : (m.session.request key).index = .ok k := Request.index_eq_ok_iff.mpr hkey
  rw [step_eq_getStable control found, getStable,
    StableCache.start_eq_hit_iff.mpr ⟨hfree, ⟨k, hindex, hv⟩, rfl⟩]

/-- A request calls no computation and gives a value exactly if that is stored. -/
theorem getUncalled_iff (hkey : key.key = .ok k)
    (found : m.session.resources[place.id]? = some (.stable c))
    (hfree : c.guard.obstacle? .read = none) :
    m.ComesUncalled (.get place key compute) (.ok v) ↔ c.slots.get? k = some v := by
  let n : Machine := m.doing (.get place key compute)
  constructor
  · rintro ⟨m', hcourse, hcontrol⟩
    obtain ⟨silent, hrest⟩ := Course.of_eval (m := n) hcourse rfl
    rcases step_get_of_silent (m := n) rfl hkey found silent with
      ⟨f, hraise, hstack⟩ | ⟨w, hw, hgive, hstack⟩
    · obtain rfl := hrest.ends.unique (.here hstack (by rw [hraise]; rfl))
      cases hraise.symm.trans hcontrol
    · obtain rfl := hrest.ends.unique (.here hstack (by rw [hgive]; rfl))
      cases hgive.symm.trans hcontrol
      exact hw
  · intro hv
    have hstep := step_get_of_found (m := n) rfl hkey found hfree hv
    exact ⟨_, ⟨.ending rfl rfl hstep, rfl, rfl⟩, rfl⟩

/-- Populating a key calls no computation exactly if a value is stored. -/
theorem populateUncalled_iff (hkey : key.key = .ok k)
    (found : m.session.resources[place.id]? = some (.stable c))
    (hfree : c.guard.obstacle? .read = none) :
    m.ComesUncalled (.populate place key compute) (.ok .null) ↔ ∃ v, c.slots.get? k = some v := by
  let n : Machine := m.doing (.populate place key compute)
  let asking : Machine :=
    ⟨.eval (.get place key compute), .bind (fun _ => .done .null) :: m.stack, m.session⟩
  have hstep : n.step = asking := rfl
  constructor
  · rintro ⟨m', hcourse, hcontrol⟩
    obtain ⟨-, hrest⟩ := Course.of_eval (m := n) hcourse rfl
    rw [hstep] at hrest
    obtain ⟨silent, hrest'⟩ := hrest.of_eval rfl
    rcases step_get_of_silent (m := asking) rfl hkey found silent with
      ⟨f, hraise, hstack⟩ | ⟨w, hw, -, -⟩
    · -- a request that is refused ends the program
      have hunwound : asking.step.step = ⟨.raise f, m.stack, asking.step.session⟩ :=
        step_unwind hraise hstack
      have hends : Ends m.stack asking.step asking.step.step := by
        refine .step (Trail.ne_of_suffix ⟨[], hstack.symm⟩) (.here ?_ ?_) <;> rw [hunwound]
        rfl
      rw [hrest'.ends.unique hends, hunwound] at hcontrol
      cases hcontrol
    · exact ⟨w, hw⟩
  · rintro ⟨v, hv⟩
    have hgiven := step_get_of_found (m := asking) rfl hkey found hfree hv
    have hfirst : Trail m.stack n [] asking :=
      .eval rfl (fun _ _ _ h => nomatch h) hstep
    have hgot : Trail m.stack asking [] asking.step :=
      .ending rfl (by rw [hgiven]; rfl) rfl
    have hresumed : Trail m.stack asking.step [] asking.step.step :=
      .resume (show asking.step.stack = .bind (fun _ => .done .null) :: m.stack by rw [hgiven])
        (by rw [hgiven]; rfl) rfl
    have hlast : Trail m.stack asking.step.step [] asking.step.step.step :=
      .ending (p := .done .null) (by rw [hgiven]; rfl) (by rw [hgiven]; rfl) rfl
    refine ⟨_, ⟨((hfirst.trans hgot).trans hresumed).trans hlast, ?_, ?_⟩, ?_⟩ <;>
      rw [hgiven] <;> rfl

end

/-! ### The first value -/

/-- The value that is stored for a key at `m` is what the first computation of the key that returned
a value returned, and it was stored and given to whom had asked for it. -/
def FirstFor (m : Machine) (x : Task) (v : Value) : Prop :=
  ∃ m₀, Reachable m₀ ∧ m₀.Returns x v ∧ m₀.session.shared.stored x = none ∧
    m₀.step.session.shared.stored x = some v ∧ m₀.step.control = .give v ∧ Leads m₀.step m ∧
    ∀ m₁ w, Reachable m₁ → Leads m₁.step m₀ → ¬m₁.Returns x w

theorem Returns.move (h : m.Returns x v) : Move m m.step := by
  obtain ⟨-, frame, rest, hstack, -⟩ := h
  exact .step (outcome?_eq_none_of_stack hstack)

/-- After a computation of a key has returned a value, no other does. -/
theorem Returns.not_before (h : m.Returns x v) {m₁ : Machine} {w : Value} (hm₁ : Reachable m₁)
    (hleads : Leads m₁.step m) : ¬m₁.Returns x w := by
  intro hreturned
  have hsettled := (hm₁.settled_of_returns hreturned).leads (hm₁.move hreturned.move) hleads
  exact hsettled.1.ended (h.tasks_eq ▸ List.mem_cons_self)

/-- A value that has just been stored by a stable cache is the first. -/
theorem Reachable.firstFor_of_stores (hm : Reachable m) (h : Move m m')
    (found : m'.session.resources[x.cache]? = some (.stable c))
    (hx : m.session.shared.stored x = none) (hx' : m'.session.shared.stored x = some v) :
    m'.FirstFor x v := by
  have hreturns := (hm.returns_of_stores h.change hx hx').1
  obtain ⟨hcontrol, frame, rest, hstack, htask⟩ := id hreturns
  obtain rfl := h.eq_step hstack
  have hhosted := hm.framed.hosted (hstack ▸ List.mem_cons_self)
  have hgive : m.step.control = .give v := by
    cases frame with
    | computing id shown k =>
      cases htask
      obtain ⟨-, c₀, found₀⟩ := hhosted
      exact hm.give_of_stores (x := ⟨id, k⟩) hcontrol hstack found₀ (hx' ▸ Option.some_ne_none v)
    | storing id k =>
      -- a value cache would still be one after the move
      cases htask
      obtain ⟨c₀, found₀⟩ := hhosted
      obtain ⟨r, found', hsort⟩ := h.change.keeps id _ found₀
      obtain ⟨c', rfl⟩ := hsort.value
      cases found.symm.trans found'
    | _ => cases htask
  exact ⟨m, hm, hreturns, hx, hx', hgive, .refl,
    fun m₁ w hm₁ hleads => hreturns.not_before hm₁ hleads⟩

/-- Every value that a stable cache has stored is the first for its key. -/
theorem Reachable.firstFor (hm : Reachable m)
    (found : m.session.resources[x.cache]? = some (.stable c))
    (hx : m.session.shared.stored x = some v) : m.FirstFor x v := by
  obtain ⟨audience, environment, p, hm⟩ := hm
  induction hm generalizing c with
  | refl => cases hx
  | @tail n m hleads hmove ih =>
    have hn : Reachable n := ⟨audience, environment, p, hleads⟩
    cases hbefore : n.session.shared.stored x with
    | none => exact hn.firstFor_of_stores hmove found hbefore hx
    | some w =>
      have hkept := hn.stored_leads hbefore (.single hmove)
      obtain rfl : w = v := Option.some.inj (hkept.symm.trans hx)
      -- where something is stored there is a cache, which has been of the same sort before
      obtain ⟨c₀, found₀⟩ : ∃ c₀, n.session.resources[x.cache]? = some (.stable c₀) := by
        cases hr : n.session.resources[x.cache]? with
        | none =>
          rw [Shared.stored, show n.session.shared.resources[x.cache]? = none from hr] at hbefore
          cases hbefore
        | some r =>
          obtain ⟨r', found', hsort⟩ := hmove.change.keeps _ _ hr
          obtain rfl := Option.some.inj (found.symm.trans found')
          cases r with
          | stable c₀ => exact ⟨c₀, rfl⟩
          | cell | value => exact hsort.elim
      obtain ⟨m₀, hm₀, hreturns, hnone, hsome, hgive, hleads₀, hfirst⟩ := ih found₀ hbefore
      exact ⟨m₀, hm₀, hreturns, hnone, hsome, hgive, hleads₀.tail hmove, hfirst⟩

/-! ### Main statement -/

section

variable (found : m.session.resources[place.id]? = some (.stable c)) (hkey : key.key = .ok k)
  (hfree : c.guard.obstacle? .read = none)

include found hkey hfree

theorem comes_contains_iff {b : Bool} :
    m.Comes (.contains place key) (.ok (.bool b)) ↔ (c.slots.get? k).isSome = b := by
  have hindex : (m.session.request key).index = .ok k := Request.index_eq_ok_iff.mpr hkey
  have hcontains : (Resource.stable c).contains (m.session.request key) =
      .ok (c.slots.get? k).isSome := StableCache.contains_eq hfree hindex
  rw [comes_iff_of_reply (m := m) (step_contains found), hcontains]
  simp [Except.map]

theorem comes_peek_iff : m.Comes (.peek place key) (.ok v) ↔ c.slots.get? k = some v := by
  have hindex : (m.session.request key).index = .ok k := Request.index_eq_ok_iff.mpr hkey
  have hstep := step_peek_stable (m := m.doing (.peek place key)) found rfl
  rw [comes_iff_of_reply (m := m) hstep, StableCache.peek_eq_ok_iff]
  constructor
  · rintro ⟨-, j, hj, hv⟩
    exact index_eq hkey hj ▸ hv
  · exact fun hv => ⟨hfree, k, hindex, hv⟩

theorem comes_retrieve_iff : m.Comes (.retrieve place key) (.ok v) ↔ c.slots.get? k = some v := by
  have hindex : (m.session.request key).index = .ok k := Request.index_eq_ok_iff.mpr hkey
  rw [comes_iff_of_reply (m := m) (step_retrieve found)]
  constructor
  · intro h
    obtain ⟨-, j, hj, hv⟩ := StableCache.peek_eq_ok_iff.mp (StableCache.peek_of_retrieve h)
    exact index_eq hkey hj ▸ hv
  · exact StableCache.retrieve_of_found hfree hindex

/-- A retrieval that finds nothing is refused, and the fault carries the key. -/
theorem retrieve_of_unpopulated (absent : c.slots.get? k = none) :
    ∃ f, (m.doing (.retrieve place key)).Rejects f ∧
      if k.isShowable = true then f.kind = .notPopulated ∧ f.key? = some key
      else f = .unspellable := by
  have hindex : (m.session.request key).index = .ok k := Request.index_eq_ok_iff.mpr hkey
  have hstep : (m.doing (.retrieve place key)).step =
      refuse ((m.session.request key).fault (.notPopulated c.label place.hint)) m.stack
        m.session := by
    refine (step_retrieve found).trans ?_
    rw [StableCache.retrieve_of_absent hfree hindex absent]
    rfl
  refine ⟨_, rejects_of_step hstep, ?_⟩
  split
  · rename_i hshowable
    obtain ⟨shown, hshown⟩ := (m.session.spelled_isOk_iff hkey).mpr hshowable
    rw [Request.fault_of_spelled hshown]
    exact ⟨rfl, congrArg some (Request.value_of_spelled hshown)⟩
  · rename_i hunshown
    rw [Bool.not_eq_true] at hunshown
    rw [Request.fault, Session.spelled_eq_error hkey hunshown]

end

/-- **All ways to look a key up agree.**  At the place of a scoped cache, or of the cache that a
per-thread cache has for a thread, a retrieval never fails as a peek does, whatever views are
active.  While no write view is active, a key is populated exactly if a retrieval, a peek, a request
for its value and populating it again succeed without calling a computation; all that give a value
give the same, which is the one that was computed first.  A key that is not populated, such as one
that is being computed on any thread, is refused to a retrieval, and nothing but the journal
changes: the fault carries the key, or says that the key cannot be shown. -/
theorem lookups_agree (hm : Reachable m) {place : Place} (hplace : m.session.Scoped place)
    (key : Value) :
    (∀ f, m.Comes (.retrieve place key) (.error f) → f.kind ≠ .missingKey) ∧
    ∀ k, key.key = .ok k → m.held ⟨place.id, .write⟩ = 0 →
      (∀ compute, List.TFAE
        [m.Comes (.contains place key) (.ok (.bool true)),
          ∃ v, m.Comes (.retrieve place key) (.ok v),
          ∃ v, m.Comes (.peek place key) (.ok v),
          ∃ v, m.ComesUncalled (.get place key compute) (.ok v),
          m.ComesUncalled (.populate place key compute) (.ok .null)]) ∧
      (∀ v, m.Comes (.retrieve place key) (.ok v) ∨ m.Comes (.peek place key) (.ok v) ∨
        (∃ compute, m.ComesUncalled (.get place key compute) (.ok v)) →
          m.session.shared.stored ⟨place.id, k⟩ = some v ∧ m.FirstFor ⟨place.id, k⟩ v) ∧
      (m.Comes (.contains place key) (.ok (.bool false)) →
        ∃ f, (m.doing (.retrieve place key)).Rejects f ∧
          if k.isShowable = true then f.kind = .notPopulated ∧ f.key? = some key
          else f = .unspellable) ∧
      (⟨place.id, k⟩ ∈ m.tasks → m.Comes (.contains place key) (.ok (.bool false))) := by
  obtain ⟨c, found⟩ := hm.stable_of_scoped hplace
  refine ⟨?_, fun k hkey hheld => ?_⟩
  · intro f h
    rw [comes_iff_of_reply (m := m) (step_retrieve found)] at h
    exact StableCache.kind_of_retrieve h
  have hunblocked : ¬m.Blocked place.id .read := Nat.not_lt.mpr (Nat.le_of_eq hheld)
  have hfree : c.guard.obstacle? .read = none := hm.obstacle?_of_not_blocked found hunblocked
  have hstored : m.session.shared.stored ⟨place.id, k⟩ = c.slots.get? k := by
    rw [Shared.stored_of_found (c := m.session.shared) found]
    rfl
  refine ⟨fun compute => ?_, ?_, ?_, ?_⟩
  · -- each of them holds exactly if something is stored
    refine List.tfae_of_forall (∃ v, c.slots.get? k = some v) _ ?_
    simp only [List.mem_cons, List.not_mem_nil, or_false]
    rintro _ (rfl | rfl | rfl | rfl | rfl)
    · exact (comes_contains_iff found hkey hfree).trans Option.isSome_iff_exists
    · exact exists_congr fun v => comes_retrieve_iff found hkey hfree
    · exact exists_congr fun v => comes_peek_iff found hkey hfree
    · exact exists_congr fun v => getUncalled_iff hkey found hfree
    · exact populateUncalled_iff hkey found hfree
  · intro v h
    have hv : c.slots.get? k = some v := by
      rcases h with h | h | ⟨compute, h⟩
      · exact (comes_retrieve_iff found hkey hfree).mp h
      · exact (comes_peek_iff found hkey hfree).mp h
      · exact (getUncalled_iff hkey found hfree).mp h
    exact ⟨hstored.trans hv, hm.firstFor found (hstored.trans hv)⟩
  · intro h
    have habsent := (comes_contains_iff found hkey hfree).mp h
    rw [Option.isSome_eq_false_iff, Option.isNone_iff_eq_none] at habsent
    exact retrieve_of_unpopulated found hkey hfree habsent
  · intro hmem
    refine (comes_contains_iff found hkey hfree).mpr ?_
    rw [← hstored, hm.sound.unstored _ hmem]
    rfl

/-- Populates `1` with a new list, and then another key. -/
def populateBoth (place : Place) : Program :=
  .andThen (.populate place (.int 1) fun _ => .perform (.memory (.newList [])))
    (.populate place (.text "j") fun _ => .done .null)

/-- The machine that computes the other key. -/
def computingOther : Machine :=
  (load (.andThen (.perform (.create (.scoped "c" none none))) (.reach (.named "c") populateBoth))
    (.start .events [])).run 14

/-- While the other key is computed, the list is found under `true` in every way, and the other key
is refused to a retrieval. -/
theorem lookups_agree_populateBoth :
    Reachable computingOther ∧ computingOther.session.Scoped ⟨0, none⟩ ∧
      computingOther.held ⟨0, .write⟩ = 0 ∧
      computingOther.ComesUncalled (.populate ⟨0, none⟩ (.bool true) fun _ => .done .null)
        (.ok .null) ∧
      computingOther.FirstFor ⟨0, .ofAtoms [.number 1]⟩ (.list 0) ∧
      computingOther.Comes (.contains ⟨0, none⟩ (.text "j")) (.ok (.bool false)) ∧
      ∃ f, (computingOther.doing (.retrieve ⟨0, none⟩ (.text "j"))).Rejects f ∧
        f.kind = .notPopulated := by
  have hm : Reachable computingOther := (Reachable.start ..).leads (leads_run ..)
  have hplace : computingOther.session.Scoped ⟨0, none⟩ :=
    .named (show computingOther.session.names.get? "c" = some (.scoped 0 none) from rfl)
  have hheld : computingOther.held ⟨0, .write⟩ = 0 := rfl
  have hpeek : computingOther.Comes (.peek ⟨0, none⟩ (.bool true)) (.ok (.list 0)) :=
    ⟨_, .of_find? 2 List.suffix_rfl rfl, rfl⟩
  obtain ⟨-, htrue⟩ := lookups_agree hm hplace (.bool true)
  obtain ⟨hagree, hfirst, -⟩ := htrue _ rfl hheld
  obtain ⟨-, hother⟩ := lookups_agree hm hplace (.text "j")
  obtain ⟨-, -, hrefused, hcomputed⟩ := hother _ rfl hheld
  have hfalse := hcomputed List.mem_cons_self
  obtain ⟨f, hrejects, hkind⟩ := hrefused hfalse
  have hpopulate : (∃ v, computingOther.Comes (.peek ⟨0, none⟩ (.bool true)) (.ok v)) ↔
      computingOther.ComesUncalled (.populate ⟨0, none⟩ (.bool true) fun _ => .done .null)
        (.ok .null) := (hagree _).out 2 4
  exact ⟨hm, hplace, hheld, hpopulate.mp ⟨_, hpeek⟩,
    (hfirst _ (.inr (.inl hpeek))).2, hfalse, f, hrejects, hkind.1⟩

/-- The machine that has just made a scoped cache. -/
def newScoped : Machine :=
  (load (.perform (.create (.scoped "c" none none))) (.start .events [])).run 1

/-- A key that was never populated is retrieved from a scoped cache, no view is active, and the
fault that is raised is not that it was not populated, because the key cannot be shown. -/
theorem not_populated_lost_on_long_key :
    Reachable newScoped ∧ newScoped.session.Scoped ⟨0, none⟩ ∧
      newScoped.held ⟨0, .read⟩ = 0 ∧ newScoped.held ⟨0, .write⟩ = 0 ∧
      newScoped.Comes (.contains ⟨0, none⟩ longKey) (.ok (.bool false)) ∧
      ∃ f, newScoped.Comes (.retrieve ⟨0, none⟩ longKey) (.error f) ∧ f.kind ≠ .notPopulated := by
  have hm : Reachable newScoped := (Reachable.start ..).leads (leads_run ..)
  have hplace : newScoped.session.Scoped ⟨0, none⟩ :=
    .named (show newScoped.session.names.get? "c" = some (.scoped 0 none) from rfl)
  obtain ⟨c, found, hslots, hfree⟩ : ∃ c,
      newScoped.session.resources[(⟨0, none⟩ : Place).id]? = some (.stable c) ∧
        c.slots = ∅ ∧ c.guard.obstacle? .read = none := ⟨_, rfl, rfl, rfl⟩
  obtain ⟨k, hk⟩ : ∃ k, longKey.key = .ok k := ⟨_, rfl⟩
  have habsent : c.slots.get? k = none := by rw [hslots]; rfl
  have hretrieve : c.retrieve none (newScoped.session.request longKey) = .error .unspellable := by
    rw [StableCache.retrieve_of_absent hfree (Request.index_eq_ok_iff.mpr hk) habsent,
      Request.fault, Session.spelled_eq_error hk (not_isShowable_of_longKey hk)]
  refine ⟨hm, hplace, rfl, rfl, ?_, .unspellable, ?_, Kind.noConfusion⟩
  · exact (comes_contains_iff found hk hfree).mpr (by rw [habsent]; rfl)
  · exact (comes_iff_of_reply (m := newScoped) (step_retrieve found)).mpr hretrieve

end Machine

end CheckedMemo
