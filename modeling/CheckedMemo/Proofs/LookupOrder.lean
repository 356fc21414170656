import CheckedMemo.Proofs.LookupAccounts
import CheckedMemo.Proofs.Paths
import CheckedMemo.Proofs.Refusals

/-!
# The order of look-ups

A cache is asked for the values of a list of keys, one request after the other, with one pure
function to compute them; a request that fails does not keep the next one from being made.  A single
request is followed through the machine (`Reachable.supplies`), and then the account of the whole
list is drawn up (`AsksEach.served`), which does not depend on the order.
-/

namespace CheckedMemo

/-- A cache with no view active and no key marked. -/
structure Resource.Idle (r : Resource) : Prop where
  cache : r.isCache = true
  free : r.guard.isBorrowed = false
  unmarked : ∀ k, r.pending.get? k = none

namespace Machine

variable {m n n' : Machine} {place : Place} {key : Value} {keys keys' : List Value} {k : Key}
  {F : Key → Except Fault Value} {compute : Value → Program} {r : Resource}
  {outcomes outcomes' : List (Except Fault Value)}

/-- On keys, `compute` is the function `F`: it ends, with a plain value or a fault that are the same
for equal keys, and it does not touch the resource `id`. -/
def IsPure (id : Nat) (F : Key → Except Fault Value) (compute : Value → Program) : Prop :=
  ∀ (m : Machine) (key : Value) (k : Key), m.control = .eval (compute key) → key.key = .ok k →
    ∃ n outcome, Ends m.stack m n ∧ n.control = .ofOutcome outcome ∧
      Outcome.Matches outcome (F k) ∧ n.session.resources[id]? = m.session.resources[id]?

/-- Copying a value comes to an end, whatever else it does.  Only an object whose copies are made by
code of its own might not do so. -/
def CopyEnds (v : Value) : Prop :=
  ∀ m : Machine, m.control = .eval (.copy v) → ∃ n, Ends m.stack m n

/-- The copies that a cache makes of its stored values come to an end.  A stable cache makes
none. -/
def CopiesEnd (r : Resource) : Prop :=
  ∀ c, r = .value c → ∀ k v, c.slots.get? k = some v → CopyEnds v

/-- A cache is asked for the values of keys, each in a program of its own.  A program that fails
does not end the session, so the next request is made whatever the outcome of the one before it. -/
inductive AsksEach (place : Place) (compute : Value → Program) :
    Machine → List Value → List (Except Fault Value) → Machine → Prop where
  | nil (m : Machine) : AsksEach place compute m [] [] m
  | cons {m n n' : Machine} {key : Value} {keys : List Value} {outcome : Except Fault Value}
    {outcomes : List (Except Fault Value)}
    (request : Ends [] (load (.get place key compute) m.session) n)
    (control : n.control = .ofOutcome outcome) (rest : AsksEach place compute n keys outcomes n') :
    AsksEach place compute m (key :: keys) (outcome :: outcomes) n'

/-! ### One request -/

/-- At the end `n` of a request for `k` the cache, which was `r`, is idle again, and it has
served the request. -/
def Supplies (F : Key → Except Fault Value) (id : Nat) (r : Resource) (k : Key) (n : Machine) :
    Prop :=
  ∃ outcome r', n.control = .ofOutcome outcome ∧ n.session.resources[id]? = some r' ∧ r'.Idle ∧
    Served F k r.account outcome r'.account

/-- What a program does on top of frames of its own is on its way to its end. -/
theorem path_above {p : Program} {base frames : List Frame} (control : m.control = .eval p)
    (stack : m.step.stack = frames ++ base) (hends : Ends (frames ++ base) m.step n) :
    Path (fun _ => True) base m n :=
  (Path.eval control trivial rfl).trans
    (hends.path.lower (List.suffix_append frames base) ⟨[], stack.symm⟩)

theorem Path.ends {base : List Frame} (h : Path (fun _ => True) base m n) (hs : n.stack = base)
    (hc : n.control.isOutcome = true) : Ends base m n := h.ends_iff.mpr (.here hs hc)

theorem isOutcome_of_eq {outcome : Except Fault Value} (control : n.control = .ofOutcome outcome) :
    n.control.isOutcome = true := by
  rw [control]
  exact isOutcome_ofOutcome outcome

/-- The end of a computation takes the mark away, and the account is that of a request served. -/
theorem finish_supplies {c : StableCache} (idle : (Resource.stable c).Idle) (thread : Thread)
    (shown : Spelled) (absent : c.slots.get? k = none) (showable : k.isShowable = true)
    {outcome : Except Fault Value} (h : Outcome.Matches outcome (F k)) :
    let f := { c with pending := c.pending.insert k thread : StableCache }.finish shown k outcome
    (Resource.stable f.cache).Idle ∧
      Served F k (Resource.stable c).account f.outcome (Resource.stable f.cache).account := by
  have free :
      { c with pending := c.pending.insert k thread : StableCache }.guard.isBorrowed = false :=
    idle.free
  have hpending (x : Key) : ((c.pending.insert k thread).erase k).get? x = none := by
    rw [Table.get?_erase, Table.get?_insert]
    split
    · rfl
    · exact idle.unmarked x
  intro f
  generalize hF : F k = computed at h
  cases h with
  | @ok v w hv =>
    have hf : f = _ := StableCache.finish_ok_of_free free
    have hslots : c.slots.insertIfNew k v = c.slots.insert k v := by
      rw [Table.insertIfNew, Table.contains, absent]
      rfl
    have houtcome : f.outcome = .ok v := by
      rw [hf, StableCache.get?_slots_deposit, if_pos rfl]
      simp [absent]
    have haccount : (Resource.stable f.cache).account = (Resource.stable c).account.store k v := by
      rw [hf]
      exact congrArg (Account.mk c.hits (c.misses + 1)) hslots
    rw [houtcome, haccount]
    refine ⟨⟨rfl, by rw [hf]; exact free, by rw [hf]; exact hpending⟩, ?_⟩
    exact .miss absent showable hF hv
  | error g =>
    have hf : f = _ := StableCache.finish_error_of_free free
    rw [hf]
    exact ⟨⟨rfl, free, hpending⟩, .failed absent showable hF⟩

/-- A stable cache serves a request whose key can be shown, if it has no value for it. -/
theorem supplies_missStable {c : StableCache} (hpure : IsPure place.id F compute)
    (control : m.control = .eval (.get place key compute)) (hkey : key.key = .ok k)
    (found : m.session.resources[place.id]? = some (.stable c)) (idle : (Resource.stable c).Idle)
    (absent : c.slots.get? k = none) (showable : k.isShowable = true) :
    ∃ n, Ends m.stack m n ∧ Supplies F place.id (.stable c) k n := by
  have hindex : (m.session.request key).index = .ok k := Request.index_eq_ok_iff.mpr hkey
  have free : c.guard.isBorrowed = false := idle.free
  obtain ⟨shown, hshown⟩ := (m.session.spelled_isOk_iff hkey).mpr showable
  let marked : StableCache := { c with pending := c.pending.insert k m.session.thread }
  have hstep : m.step = ⟨.eval (compute key), .computing place.id shown k :: m.stack,
      (m.session.setStable place.id marked).log (.cacheMiss c.label shown)⟩ := by
    rw [step_eq_getStable control found, getStable,
      StableCache.start_eq_miss_iff.mpr ⟨free, hindex, absent, idle.unmarked k, hshown, rfl⟩]
    rfl
  have hmarked : m.step.session.resources[place.id]? = some (.stable marked) := by
    rw [hstep]
    exact Session.getElem?_setResource_self found _
  have hstack : m.step.stack = [.computing place.id shown k] ++ m.stack := by rw [hstep]; rfl
  -- the computation leaves the cache as it is, with its mark
  obtain ⟨n, outcome, hends, hcontrol, houtcome, hkept⟩ :=
    hpure m.step key k (by rw [hstep]) hkey
  rw [hmarked] at hkept
  rw [hstack] at hends
  obtain ⟨hcontrol', hstack', hshared⟩ := step_computing hcontrol hends.stack_eq hkept
  have hpath : Path (fun _ => True) m.stack m n.step :=
    (path_above control hstack hends).trans
      (Path.leave hends.stack_eq List.suffix_rfl trivial rfl)
  have hsupplies := finish_supplies idle m.session.thread shown absent showable houtcome
  have hfound : n.step.session.resources[place.id]? =
      some (.stable (marked.finish shown k outcome).cache) := by
    show n.step.session.shared.resources[place.id]? = _
    rw [hshared]
    exact Shared.getElem?_resources_set_self hkept _
  exact ⟨n.step, hpath.ends hstack' (isOutcome_of_eq hcontrol'), _, _, hcontrol', hfound, hsupplies⟩

/-- A request that is over in one step. -/
theorem ends_step {p : Program} {outcome : Except Fault Value} (control : m.control = .eval p)
    (hcontrol : m.step.control = .ofOutcome outcome) (hstack : m.step.stack = m.stack) :
    Ends m.stack m m.step :=
  (Path.eval (Q := fun _ => True) control trivial rfl).ends hstack (isOutcome_of_eq hcontrol)

/-- A stable cache serves every request with a key. -/
theorem supplies_stable {c : StableCache} (hpure : IsPure place.id F compute)
    (control : m.control = .eval (.get place key compute)) (hkey : key.key = .ok k)
    (found : m.session.resources[place.id]? = some (.stable c)) (idle : (Resource.stable c).Idle) :
    ∃ n, Ends m.stack m n ∧ Supplies F place.id (.stable c) k n := by
  have hindex : (m.session.request key).index = .ok k := Request.index_eq_ok_iff.mpr hkey
  have free : c.guard.isBorrowed = false := idle.free
  cases hslot : c.slots.get? k with
  | some v =>
    have hstep : m.step =
        ⟨.give v, m.stack, m.session.setStable place.id { c with hits := c.hits + 1 }⟩ := by
      rw [step_eq_getStable control found, getStable, StableCache.start_eq_hit_iff.mpr
        ⟨Guard.obstacle?_of_not_isBorrowed free .read, ⟨k, hindex, hslot⟩, rfl⟩]
    have hcontrol : m.step.control = .ofOutcome (.ok v) := by rw [hstep]; rfl
    have hset := Session.getElem?_setResource_self found (.stable { c with hits := c.hits + 1 })
    refine ⟨m.step, ends_step control hcontrol (by rw [hstep]), _,
      .stable { c with hits := c.hits + 1 }, hcontrol, by rw [hstep]; exact hset,
      ⟨rfl, free, idle.unmarked⟩, ?_⟩
    exact .hit (a := (Resource.stable c).account) hslot fun _ => rfl
  | none =>
    cases hshowable : k.isShowable with
    | true => exact supplies_missStable hpure control hkey found idle hslot hshowable
    | false =>
      have hstep : m.step = refuse .unspellable m.stack m.session := by
        rw [step_eq_getStable control found, getStable, StableCache.start_of_unshown free hindex
          hslot (idle.unmarked k) (Session.spelled_eq_error hkey hshowable)]
      have hcontrol : m.step.control = .ofOutcome (.error .unspellable) := by rw [hstep]; rfl
      exact ⟨m.step, ends_step control hcontrol (by rw [hstep]; rfl), _, _, hcontrol,
        by rw [hstep]; exact found, idle, .unshown hslot hshowable⟩

/-- A value cache is released when its computation fails, and has stored nothing. -/
theorem released_of_raise {c : ValueCache} {id : Nat} {base : List Frame} {f : Fault}
    (free : c.guard.isBorrowed = false) (control : m.control = .raise f)
    (stack : m.stack = .storing id k :: .release id .write :: base)
    (held : m.session.resources[id]? = some (.value (c.acquire .write))) :
    ∃ n, Path (fun _ => True) base m n ∧ n.stack = base ∧ n.control = .raise f ∧
      n.session.resources[id]? = some (.value c) := by
  have hfailed : m.step = ⟨.raise f, .release id .write :: base, m.session⟩ :=
    step_unwind control stack
  have hleft : m.step.step = ⟨.raise f, base, m.session.release id .write⟩ := by
    rw [hfailed]
    rfl
  have hpath : Path (fun _ => True) base m m.step.step :=
    (Path.leave stack (List.suffix_cons ..) trivial rfl).trans
      (Path.leave (by rw [hfailed]) List.suffix_rfl trivial rfl)
  refine ⟨_, hpath, by rw [hleft], by rw [hleft], ?_⟩
  rw [hleft]
  refine (Session.resources_release_of_found held .write).trans ?_
  exact congrArg (fun guard => some (Resource.value { c with guard })) (release_acquire_guard free)

/-- A value cache stores a plain value that has been computed, copies it and is released. -/
theorem released_of_give {c : ValueCache} {id : Nat} {base : List Frame} {v : Value}
    (free : c.guard.isBorrowed = false) (plain : v.Matches v) (control : m.control = .give v)
    (stack : m.stack = .storing id k :: .release id .write :: base)
    (held : m.session.resources[id]? = some (.value (c.acquire .write))) :
    ∃ n, Path (fun _ => True) base m n ∧ n.stack = base ∧ n.control = .give v ∧
      n.session.resources[id]? = some (.value (c.deposit k v)) := by
  let stored : ValueCache := (c.acquire .write).deposit k v
  have hstored : m.step =
      ⟨.eval (.copy v), .release id .write :: base, m.session.setValue id stored⟩ := by
    rw [step_resume control stack, resume, deposit, held]
  have hcopied : m.step.step =
      ⟨.give v, .release id .write :: base, m.session.setValue id stored⟩ := by
    rw [hstored]
    exact copy_of_plain plain ..
  have hleft : m.step.step.step =
      ⟨.give v, base, (m.session.setValue id stored).release id .write⟩ := by
    rw [hcopied]
    rfl
  have hpath : Path (fun _ => True) base m m.step.step.step :=
    ((Path.leave stack (List.suffix_cons ..) trivial rfl).trans
      (Path.eval (by rw [hstored]) trivial rfl)).trans
        (Path.leave (by rw [hcopied]) List.suffix_rfl trivial rfl)
  have hset := Session.getElem?_setResource_self held (.value stored)
  refine ⟨_, hpath, by rw [hleft], by rw [hleft], ?_⟩
  rw [hleft]
  refine (Session.resources_release_of_found hset .write).trans ?_
  exact congrArg (fun guard => some (Resource.value { c.deposit k v with guard }))
    (release_acquire_guard free)

/-- A value cache serves a request whose key can be shown, if it has no value for it. -/
theorem supplies_missValue {c : ValueCache} (hpure : IsPure place.id F compute)
    (control : m.control = .eval (.get place key compute)) (hkey : key.key = .ok k)
    (found : m.session.resources[place.id]? = some (.value c)) (idle : (Resource.value c).Idle)
    (absent : c.slots.get? k = none) (showable : k.isShowable = true) :
    ∃ n, Ends m.stack m n ∧ Supplies F place.id (.value c) k n := by
  have hindex : (m.session.request key).index = .ok k := Request.index_eq_ok_iff.mpr hkey
  have free : c.guard.isBorrowed = false := idle.free
  obtain ⟨shown, hshown⟩ := (m.session.spelled_isOk_iff hkey).mpr showable
  have hstep : m.step = ⟨.eval (compute key),
      .storing place.id k :: .release place.id .write :: m.stack,
      (m.session.setValue place.id (c.acquire .write)).log (.cacheMiss c.label shown)⟩ := by
    rw [step_eq_getValue control found, getValue,
      ValueCache.start_eq_miss_iff.mpr ⟨free, hindex, absent, hshown, rfl⟩]
    rfl
  have hheld : m.step.session.resources[place.id]? = some (.value (c.acquire .write)) := by
    rw [hstep]
    exact Session.getElem?_setResource_self found _
  have hstack : m.step.stack =
      [.storing place.id k, .release place.id .write] ++ m.stack := by rw [hstep]; rfl
  obtain ⟨n, outcome, hends, hcontrol, houtcome, hkept⟩ :=
    hpure m.step key k (by rw [hstep]) hkey
  rw [hheld] at hkept
  rw [hstack] at hends
  have hpath := path_above control hstack hends
  generalize hF : F k = computed at houtcome
  cases houtcome with
  | error f =>
    obtain ⟨n', hpath', hstack', hcontrol', hfound⟩ :=
      released_of_raise free hcontrol hends.stack_eq hkept
    exact ⟨n', (hpath.trans hpath').ends hstack' (by rw [hcontrol']; rfl), .error f, .value c,
      hcontrol', hfound, idle, .failed absent showable hF⟩
  | @ok v w hv =>
    obtain ⟨n', hpath', hstack', hcontrol', hfound⟩ :=
      released_of_give free hv.plain hcontrol hends.stack_eq hkept
    exact ⟨n', (hpath.trans hpath').ends hstack' (by rw [hcontrol']; rfl), .ok v,
      .value (c.deposit k v), hcontrol', hfound, ⟨rfl, free, idle.unmarked⟩,
      .miss (a := (Resource.value c).account) absent showable hF hv⟩

/-- A value cache serves a request for a key without a value. -/
theorem supplies_absentValue {c : ValueCache} (hpure : IsPure place.id F compute)
    (control : m.control = .eval (.get place key compute)) (hkey : key.key = .ok k)
    (found : m.session.resources[place.id]? = some (.value c)) (idle : (Resource.value c).Idle)
    (absent : c.slots.get? k = none) :
    ∃ n, Ends m.stack m n ∧ Supplies F place.id (.value c) k n := by
  cases hshowable : k.isShowable with
  | true => exact supplies_missValue hpure control hkey found idle absent hshowable
  | false =>
    have hstep : m.step = refuse .unspellable m.stack m.session := by
      rw [step_eq_getValue control found, getValue, ValueCache.start_of_unshown
        (Guard.obstacle?_of_not_isBorrowed idle.free .write) (Request.index_eq_ok_iff.mpr hkey)
        absent (Session.spelled_eq_error hkey hshowable)]
    have hcontrol : m.step.control = .ofOutcome (.error .unspellable) := by rw [hstep]; rfl
    exact ⟨m.step, ends_step control hcontrol (by rw [hstep]; rfl), _, _, hcontrol,
      by rw [hstep]; exact found, idle, .unshown absent hshowable⟩

/-- A value cache that has a value for the key starts to copy it. -/
theorem step_hitValue {c : ValueCache} {v : Value}
    (control : m.control = .eval (.get place key compute)) (hkey : key.key = .ok k)
    (found : m.session.resources[place.id]? = some (.value c)) (idle : (Resource.value c).Idle)
    (stored : c.slots.get? k = some v) :
    m.step = ⟨.eval (.copy v), .release place.id .write :: m.stack,
      m.session.setValue place.id { c.acquire .write with hits := c.hits + 1 }⟩ := by
  have hindex : (m.session.request key).index = .ok k := Request.index_eq_ok_iff.mpr hkey
  rw [step_eq_getValue control found, getValue,
    ValueCache.start_eq_hit_iff.mpr ⟨idle.free, ⟨k, hindex, stored⟩, rfl⟩]

/-- Once the copy of the value has ended, the request has been served. -/
theorem supplies_hitValue {c : ValueCache} {v : Value} (hm : Reachable m)
    (control : m.control = .eval (.get place key compute)) (hkey : key.key = .ok k)
    (found : m.session.resources[place.id]? = some (.value c)) (idle : (Resource.value c).Idle)
    (stored : c.slots.get? k = some v)
    (hends : Ends (.release place.id .write :: m.stack) m.step n) :
    Ends m.stack m n.step ∧ Supplies F place.id (.value c) k n.step := by
  have free : c.guard.isBorrowed = false := idle.free
  have hstep := step_hitValue control hkey found idle stored
  have hset := Session.getElem?_setResource_self found
    (.value { c.acquire .write with hits := c.hits + 1 })
  have hstack : m.step.stack = [.release place.id .write] ++ m.stack := by rw [hstep]; rfl
  have hinside : Inside place.id { c.acquire .write with hits := c.hits + 1 }
      (.release place.id .write :: m.stack) m.step :=
    ⟨hm.move (.step (outcome?_eq_none_of_eval control)), by rw [hstep]; exact hset,
      ⟨[], hstack.symm⟩, List.mem_cons_self, by rw [hstep]⟩
  -- whatever the copy does, the cache is left alone
  have hreleased : { c.acquire .write with
      hits := c.hits + 1, guard := (c.acquire .write).guard.release .write } =
      { c with hits := c.hits + 1 } := by
    rw [ValueCache.acquire, release_acquire_guard free]
  obtain ⟨hcontrol, hstack', hfound⟩ := hinside.delivers hends hreleased
  obtain ⟨outcome, houtcome⟩ := eq_ofOutcome hends.isOutcome
  have hcontrol' : n.step.control = .ofOutcome outcome := hcontrol.trans houtcome
  have hpath : Path (fun _ => True) m.stack m n.step :=
    (path_above control hstack hends).trans
      (Path.leave hends.stack_eq List.suffix_rfl trivial rfl)
  refine ⟨hpath.ends hstack' (isOutcome_of_eq hcontrol'), outcome, _, hcontrol', hfound,
    ⟨rfl, free, idle.unmarked⟩, .hit (a := (Resource.value c).account) stored fun hv => ?_⟩
  -- a plain value is copied at once
  have hcopied : m.step.step = ⟨.give v, .release place.id .write :: m.stack, m.step.session⟩ := by
    rw [hstep]
    exact copy_of_plain hv ..
  have hn : n = m.step.step :=
    hends.unique ((Path.eval (Q := fun _ => True) (by rw [hstep]) trivial rfl).ends
      (by rw [hcopied]) (by rw [hcopied]; rfl))
  rw [hn, hcopied] at houtcome
  cases outcome with
  | ok u =>
    cases houtcome
    rfl
  | error f => cases houtcome

/-- **A request that ends has been served, and the cache is idle again.** -/
theorem Reachable.supplies (hm : Reachable m) (hpure : IsPure place.id F compute)
    (control : m.control = .eval (.get place key compute)) (hkey : key.key = .ok k)
    (found : m.session.resources[place.id]? = some r) (idle : r.Idle)
    (hends : Ends m.stack m n) : Supplies F place.id r k n := by
  cases r with
  | cell => cases idle.cache
  | stable c =>
    obtain ⟨n', hends', hsupplies⟩ := supplies_stable hpure control hkey found idle
    exact hends.unique hends' ▸ hsupplies
  | value c =>
    cases hslot : c.slots.get? k with
    | none =>
      obtain ⟨n', hends', hsupplies⟩ := supplies_absentValue hpure control hkey found idle hslot
      exact hends.unique hends' ▸ hsupplies
    | some v =>
      have hstep := step_hitValue control hkey found idle hslot
      have hsuffix : .release place.id .write :: m.stack <:+ m.step.stack :=
        ⟨[], by rw [hstep]; rfl⟩
      obtain ⟨n₁, hn₁, -⟩ := (hends.of_eval control).split hsuffix
      obtain ⟨hends', hsupplies⟩ := supplies_hitValue hm control hkey found idle hslot hn₁
      exact hends.unique hends' ▸ hsupplies

/-- A request ends, if the copies of the stored values do. -/
theorem Reachable.request_ends (hm : Reachable m) (hpure : IsPure place.id F compute)
    (control : m.control = .eval (.get place key compute)) (hkey : key.key = .ok k)
    (found : m.session.resources[place.id]? = some r) (idle : r.Idle)
    (copies : CopiesEnd r) : ∃ n, Ends m.stack m n := by
  cases r with
  | cell => cases idle.cache
  | stable c =>
    obtain ⟨n, hends, -⟩ := supplies_stable hpure control hkey found idle
    exact ⟨n, hends⟩
  | value c =>
    cases hslot : c.slots.get? k with
    | none =>
      obtain ⟨n, hends, -⟩ := supplies_absentValue hpure control hkey found idle hslot
      exact ⟨n, hends⟩
    | some v =>
      have hstep := step_hitValue control hkey found idle hslot
      obtain ⟨n, hends⟩ := copies c rfl k v hslot m.step (by rw [hstep])
      rw [show m.step.stack = .release place.id .write :: m.stack by rw [hstep]] at hends
      exact ⟨n.step, (supplies_hitValue (F := F) hm control hkey found idle hslot hends).1⟩

/-! ### Many requests -/

/-- The keys under which values are looked up. -/
def indices (keys : List Value) : List Key := keys.filterMap fun v => v.key.toOption

theorem indices_cons (hkey : key.key = .ok k) (keys : List Value) :
    indices (key :: keys) = k :: indices keys := by
  rw [indices, List.filterMap_cons, hkey]
  rfl

/-- The account of a list of requests, at the end of which the cache is idle again. -/
theorem AsksEach.served (h : AsksEach place compute m keys outcomes n) (hm : Reachable m)
    (hend : m.outcome?.isSome = true) (hpure : IsPure place.id F compute)
    (hashable : ∀ key ∈ keys, ∃ k, key.key = .ok k)
    (found : m.session.resources[place.id]? = some r) (idle : r.Idle) :
    ∃ r', n.session.resources[place.id]? = some r' ∧
      ServedEach F (indices keys) r.account outcomes r'.account := by
  induction h generalizing r with
  | nil => exact ⟨r, found, .nil _⟩
  | @cons m n n' key keys outcome outcomes request control _ ih =>
    obtain ⟨k, hkey⟩ := hashable key List.mem_cons_self
    have hload : Reachable (load (.get place key compute) m.session) := hm.move (.next hend _)
    obtain ⟨outcome', r', hcontrol, hfound, hidle, hserved⟩ :=
      hload.supplies hpure rfl hkey found idle request
    obtain rfl : outcome = outcome' := by
      cases outcome <;> cases outcome' <;> cases control.symm.trans hcontrol <;> rfl
    have hn : n.outcome?.isSome = true :=
      (outcome?_isSome_iff n).mpr ⟨request.stack_eq, request.isOutcome⟩
    obtain ⟨r'', hfound', htail⟩ := ih (hload.leads (request.leads List.suffix_rfl)) hn
      (fun key hmem => hashable key (List.mem_cons_of_mem _ hmem)) hfound hidle
    refine ⟨r'', hfound', ?_⟩
    rw [indices_cons hkey]
    exact .cons hserved htail

theorem copyEnds_of_plain {v : Value} (h : v.Matches v) : CopyEnds v := by
  intro m control
  have hstep : m.step = ⟨.give v, m.stack, m.session⟩ := by
    rw [step, control]
    exact copy_of_plain h ..
  have hcontrol : m.step.control = .ofOutcome (.ok v) := by rw [hstep]; rfl
  exact ⟨m.step, ends_step control hcontrol (by rw [hstep])⟩

/-- A request that is served stores no value but plain ones. -/
theorem stored_of_served {a b : Account} {outcome : Except Fault Value}
    (h : Served F k a outcome b) {x : Key} {v : Value} (hv : b.slots.get? x = some v) :
    a.slots.get? x = some v ∨ v.Matches v := by
  cases h with
  | hit | failed | unshown => exact .inl hv
  | @miss u w absent showable computed hu =>
    rw [Account.store, Table.get?_insert] at hv
    split at hv
    · cases hv
      exact .inr hu.plain
    · exact .inl hv

/-- A cache that has served a request copies nothing but plain values and what it had before. -/
theorem CopiesEnd.of_served {r' : Resource} (h : CopiesEnd r) (sort : r.SameSort r')
    {outcome : Except Fault Value} (served : Served F k r.account outcome r'.account) :
    CopiesEnd r' := by
  rintro c' rfl x v hv
  cases r with
  | cell | stable => exact sort.elim
  | value c =>
    rcases stored_of_served served hv with hstored | hplain
    · exact h c rfl x v hstored
    · exact copyEnds_of_plain hplain

/-- The requests of a list all end, if the copies of the values that are stored before do. -/
theorem Reachable.exists_asksEach (hm : Reachable m) (hend : m.outcome?.isSome = true)
    (hpure : IsPure place.id F compute) (hashable : ∀ key ∈ keys, ∃ k, key.key = .ok k)
    (found : m.session.resources[place.id]? = some r) (idle : r.Idle) (copies : CopiesEnd r) :
    ∃ outcomes n, AsksEach place compute m keys outcomes n := by
  induction keys generalizing m r with
  | nil => exact ⟨[], m, .nil m⟩
  | cons key keys ih =>
    obtain ⟨k, hkey⟩ := hashable key List.mem_cons_self
    have hload : Reachable (load (.get place key compute) m.session) := hm.move (.next hend _)
    obtain ⟨n, hends⟩ := hload.request_ends hpure rfl hkey found idle copies
    obtain ⟨outcome, r', hcontrol, hfound, hidle, hserved⟩ :=
      hload.supplies hpure rfl hkey found idle hends
    have hn : n.outcome?.isSome = true :=
      (outcome?_isSome_iff n).mpr ⟨hends.stack_eq, hends.isOutcome⟩
    have hleads : Leads (load (.get place key compute) m.session) n :=
      hends.leads List.suffix_rfl
    -- the cache is still of the same sort
    obtain ⟨r₀, hfound₀, hsort⟩ := hleads.keeps place.id r found
    obtain rfl : r₀ = r' := Option.some.inj (hfound₀.symm.trans hfound)
    obtain ⟨outcomes, n', hrest⟩ := ih (hload.leads hleads) hn
      (fun key hmem => hashable key (List.mem_cons_of_mem _ hmem)) hfound hidle
      (copies.of_served hsort hserved)
    exact ⟨outcome :: outcomes, n', .cons hends hcontrol hrest⟩

/-- What a cache that was new answers, if no computation fails: with one value for each key that can
be shown. -/
theorem answers_of_new {b : Account} {ks : List Key} (h : Fills F ks {} b)
    (total : ∀ k, (F k).isOk = true) (k : Key) (hk : k ∈ ks) : answerOf F b k =
      if k.isShowable then .ok ((b.slots.get? k).getD .null) else .error .unspellable := by
  have hnew : k ∈ newKeys F {} ks ↔ k.isShowable = true := by
    rw [mem_newKeys, answers, total, Bool.and_true]
    exact ⟨fun h => h.2.2, fun h => ⟨hk, rfl, h⟩⟩
  by_cases hshowable : k.isShowable = true
  · obtain ⟨v, -, hv, -⟩ := h.new k (hnew.mpr hshowable)
    rw [answerOf_of_stored hv, if_pos hshowable, hv]
    rfl
  · have habsent := h.others k rfl (fun hmem => hshowable (hnew.mp hmem))
    rw [answerOf_of_absent habsent, if_neg hshowable, if_neg hshowable]

/-- **The order of look-ups does not matter.**  A cache of which no view is active and no key is
marked is asked for the values of a list of keys, with a pure function that gives plain values or
faults.  The requests can all be made, if the copies that a value cache makes of what it had stored
before come to an end.  After requests for the same keys in another order the same keys have values,
either the same as before or plain values that are shown the same, and there are as many hits and
misses.  If the cache was new and the function never fails, there are as many misses and stored keys
as the list has different keys that can be shown, the other requests for such keys are hits, and all
requests for one key are given one value; a request for a key that cannot be shown fails. -/
theorem lookup_order_irrelevant (hm : Reachable m) (hend : m.outcome?.isSome = true)
    (found : m.session.resources[place.id]? = some r) (idle : r.Idle)
    (hpure : IsPure place.id F compute) (hashable : ∀ key ∈ keys, ∃ k, key.key = .ok k)
    (perm : keys.Perm keys') :
    (CopiesEnd r → ∃ outcomes n, AsksEach place compute m keys outcomes n) ∧
    ∀ outcomes n, AsksEach place compute m keys outcomes n →
      ∃ r₁, n.session.resources[place.id]? = some r₁ ∧
        (∀ outcomes' n', AsksEach place compute m keys' outcomes' n' →
          ∃ r₂, n'.session.resources[place.id]? = some r₂ ∧ r₁.account.Agrees r₂.account) ∧
        (r.account = {} → (∀ k, (F k).isOk = true) →
          r₁.account.misses = ((indices keys).filter Key.isShowable).toFinset.card ∧
          r₁.account.slots.size = r₁.account.misses ∧
          r₁.account.hits = ((indices keys).filter Key.isShowable).length - r₁.account.misses ∧
          ∃ value : Key → Value, outcomes = (indices keys).map fun k =>
            if k.isShowable then .ok (value k) else .error .unspellable) := by
  refine ⟨hm.exists_asksEach hend hpure hashable found idle, fun outcomes n hasks => ?_⟩
  obtain ⟨r₁, hfound, hserved⟩ := hasks.served hm hend hpure hashable found idle
  refine ⟨r₁, hfound, fun outcomes' n' hasks' => ?_, fun hnew total => ?_⟩
  · have hashable' : ∀ key ∈ keys', ∃ k, key.key = .ok k :=
      fun key hmem => hashable key (perm.mem_iff.mpr hmem)
    obtain ⟨r₂, hfound', hserved'⟩ := hasks'.served hm hend hpure hashable' found idle
    exact ⟨r₂, hfound', hserved.fills.agrees hserved'.fills (perm.filterMap _)⟩
  · rw [hnew] at hserved
    obtain ⟨hmisses, hsize, hhits⟩ := hserved.fills.of_new total
    refine ⟨hmisses, hsize, hhits, fun k => (r₁.account.slots.get? k).getD .null, ?_⟩
    rw [hserved.outcomes_eq fun k v hv => nomatch hv]
    exact List.map_congr_left fun k hk => answers_of_new hserved.fills total k hk

/-- A cache that has stored nothing has nothing to copy. -/
theorem copiesEnd_of_new (h : r.account = {}) : CopiesEnd r := by
  rintro c rfl k v hv
  have hempty : c.slots = {} := congrArg Account.slots h
  rw [hempty] at hv
  cases hv

/-- A session that has made a stable cache. -/
def madeStable : Machine :=
  (load (.perform (.create (.stable "c" none))) (.start .events [])).run 1

theorem Reachable.madeStable : Reachable madeStable := (Reachable.start ..).leads (leads_run ..)

/-- The cache is new. -/
theorem found_madeStable : ∃ r, madeStable.session.resources[(⟨0, none⟩ : Place).id]? = some r ∧
    r.Idle ∧ r.account = {} :=
  ⟨_, rfl, ⟨rfl, rfl, fun _ => rfl⟩, rfl⟩

/-- The function that is seven everywhere. -/
theorem isPure_seven (id : Nat) :
    IsPure id (fun _ => .ok (.int 7)) fun _ => .done (.int 7) := by
  intro m key k control _
  have hstep : m.step = ⟨.give (.int 7), m.stack, m.session⟩ := by
    rw [step, control]
    rfl
  have hcontrol : m.step.control = .ofOutcome (.ok (.int 7)) := by rw [hstep]; rfl
  exact ⟨m.step, _, ends_step control hcontrol (by rw [hstep]), hcontrol,
    .ok fun _ _ => rfl, by rw [hstep]⟩

theorem lookup_order_irrelevant_seven :
    Reachable madeStable ∧ madeStable.outcome?.isSome = true ∧
      ∃ outcomes n outcomes' n' r₁ r₂,
        AsksEach ⟨0, none⟩ (fun _ => .done (.int 7)) madeStable
          [.int 1, .bool true, .text "a"] outcomes n ∧
        AsksEach ⟨0, none⟩ (fun _ => .done (.int 7)) madeStable
          [.text "a", .int 1, .bool true] outcomes' n' ∧
        n.session.resources[0]? = some r₁ ∧ n'.session.resources[0]? = some r₂ ∧
        r₁.account.Agrees r₂.account ∧ r₁.account.misses = 2 ∧ r₁.account.hits = 1 := by
  have hm := Reachable.madeStable
  obtain ⟨r, found, idle, hr⟩ := found_madeStable
  have perm : [Value.int 1, .bool true, .text "a"].Perm [.text "a", .int 1, .bool true] :=
    @List.perm_append_comm Value [.int 1, .bool true] [.text "a"]
  have hashable : ∀ key ∈ [Value.int 1, .bool true, .text "a"], ∃ k, key.key = .ok k := by
    simp [Value.key, Value.atoms, Except.map]
  have hashable' : ∀ key ∈ [Value.text "a", .int 1, .bool true], ∃ k, key.key = .ok k :=
    fun key hkey => hashable key (perm.mem_iff.mpr hkey)
  have copies : CopiesEnd r := copiesEnd_of_new hr
  have hpure := isPure_seven (⟨0, none⟩ : Place).id
  obtain ⟨hends, hcompared⟩ := lookup_order_irrelevant hm rfl found idle hpure hashable perm
  obtain ⟨outcomes, n, hasks⟩ := hends copies
  obtain ⟨outcomes', n', hasks'⟩ := hm.exists_asksEach rfl hpure hashable' found idle copies
  obtain ⟨r₁, hfound, hagrees, hnew⟩ := hcompared outcomes n hasks
  obtain ⟨r₂, hfound', hsame⟩ := hagrees outcomes' n' hasks'
  obtain ⟨hmisses, -, hhits, -⟩ := hnew hr fun _ => rfl
  have hcount : ((indices [Value.int 1, .bool true, .text "a"]).filter Key.isShowable).length = 3 ∧
      ((indices [Value.int 1, .bool true, .text "a"]).filter Key.isShowable).toFinset.card = 2 := by
    decide
  rw [hcount.2] at hmisses
  rw [hcount.1, hmisses] at hhits
  exact ⟨hm, rfl, outcomes, n, outcomes', n', r₁, r₂, hasks, hasks', hfound, hfound', hsame,
    hmisses, hhits⟩

/-- A new cache that is asked for one key, whose computation does not fail, stores nothing and
counts no miss, because the key cannot be shown. -/
theorem uncounted_long_key :
    Reachable madeStable ∧ longKey.key.isOk = true ∧
      ∃ outcomes n r, AsksEach ⟨0, none⟩ (fun _ => .done (.int 7)) madeStable [longKey] outcomes n ∧
        n.session.resources[0]? = some r ∧ r.account.misses = 0 ∧ r.account.slots.size = 0 ∧
        outcomes = [.error .unspellable] := by
  have hm := Reachable.madeStable
  obtain ⟨k, hkey⟩ : ∃ k, longKey.key = .ok k := ⟨_, rfl⟩
  have hshowable : k.isShowable = false := not_isShowable_of_longKey hkey
  obtain ⟨r, found, idle, hr⟩ := found_madeStable
  have hpure := isPure_seven (⟨0, none⟩ : Place).id
  have hload : Reachable (load (.get ⟨0, none⟩ longKey fun _ => .done (.int 7))
    madeStable.session) := hm.move (.next rfl _)
  obtain ⟨n, hends⟩ := hload.request_ends hpure rfl hkey found idle (copiesEnd_of_new hr)
  obtain ⟨outcome, r', hcontrol, hfound, -, hserved⟩ :=
    hload.supplies hpure rfl hkey found idle hends
  rw [hr] at hserved
  refine ⟨hm, by rw [hkey]; rfl, [outcome], n, r', .cons hends hcontrol (.nil n), hfound, ?_⟩
  -- of the ways to serve a request only that of a key that cannot be shown is left
  generalize hb : r'.account = b at hserved
  cases hserved with
  | hit stored => cases stored
  | miss absent showable => cases hshowable.symm.trans showable
  | failed absent showable => cases hshowable.symm.trans showable
  | unshown => exact ⟨rfl, rfl, rfl⟩

end Machine

end CheckedMemo
