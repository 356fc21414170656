import CheckedMemo.Proofs.Borrowing
import CheckedMemo.Proofs.Trails

/-!
# Value caches while they compute and copy

A value cache answers a request inside one write view, which a frame holds until the copy of the
value is made.  While a frame holds a write view, every request for another view is refused
(`Reachable.refuses_of_release`), and so nothing that runs on top of the frame can alter the cache
but the frame that stores the computed value (`Inside.change`, `Inside.trail`).

The main statement is `exclusive_and_atomic`.
-/

namespace CheckedMemo

/-! ### Other cells and caches -/

namespace Session

variable {s : Session} {id i : Nat}

theorem resources_release_of_ne (h : id ≠ i) (mode : Mode) :
    (s.release id mode).resources[i]? = s.resources[i]? := by
  unfold release
  split
  · exact Array.getElem?_setIfInBounds_ne h
  · rfl

theorem resources_release_of_found {r : Resource} (found : s.resources[id]? = some r)
    (mode : Mode) :
    (s.release id mode).resources[id]? = some (r.mapGuard (·.release mode)) := by
  unfold release
  rw [found]
  exact getElem?_setResource_self found _

theorem resources_dropNamed_of_ne {name : String}
    (h : ∀ mode, s.views.get? name ≠ some ⟨i, mode⟩) :
    (s.dropNamed name).resources[i]? = s.resources[i]? := by
  unfold dropNamed
  split
  · rfl
  · rename_i v hv
    have hne : v.resource ≠ i := by
      rintro rfl
      exact h v.mode hv
    exact resources_release_of_ne hne v.mode

end Session

theorem Table.not_mem_values_of_count {α β : Type} [DecidableEq α] [DecidableEq β]
    {t : Table α β} (ht : t.keys.Nodup) {b : β} (h : t.values.count b = 0) (a : α) :
    t.get? a ≠ some b := by
  intro hb
  have hmem : b ∈ t.values := (mem_values_iff ht b).mpr ⟨a, hb⟩
  have hpos : 0 < t.values.count b := List.count_pos_iff.mpr hmem
  omega

/-- Whether a frame is going to store a value in a value cache. -/
def Frame.stores (id : Nat) : Frame → Bool
  | .storing i _ => i = id
  | _ => false

namespace Machine

variable {m m' n : Machine} {id : Nat} {r : Resource} {c : ValueCache} {base : List Frame}
  {calls : List Task}

/-! ### Frames that hold a write view -/

theorem count_pos_of_release {frames : List Frame} {v : OpenView}
    (h : .release v.resource v.mode ∈ frames) : 0 < (frames.filterMap Frame.view?).count v :=
  List.count_pos_iff.mpr (List.mem_filterMap.mpr ⟨_, h, rfl⟩)

/-- While a frame holds a write view, the view is active and in the way of every request. -/
theorem Reachable.obstacle?_of_release (hm : Reachable m)
    (held : .release id .write ∈ m.stack) (found : m.session.resources[id]? = some r)
    (mode : Mode) : r.guard.obstacle? mode = some .write := by
  have hfaithful : Faithful m id r.guard := hm.faithful found
  have hpos : 0 < m.held ⟨id, .write⟩ := Nat.add_pos_left (count_pos_of_release held) _
  have hone : m.held ⟨id, .write⟩ = 1 := Nat.le_antisymm hfaithful.single hpos
  have hwriting : r.guard.writing = true := hfaithful.writing.mpr hone
  cases mode <;> simp [Guard.obstacle?, hwriting]

/-- What a view is held of is there. -/
theorem Reachable.exists_of_held (hm : Reachable m) {v : OpenView} (h : 0 < m.held v) :
    ∃ r, m.session.resources[v.resource]? = some r := by
  rw [← hm.accounted.active_eq, Shared.active] at h
  cases found : m.session.resources[v.resource]? with
  | some r => exact ⟨r, rfl⟩
  | none =>
    rw [show m.session.shared.resources[v.resource]? = none from found] at h
    cases h

theorem Reachable.exists_of_release (hm : Reachable m) {mode : Mode}
    (held : .release id mode ∈ m.stack) : ∃ r, m.session.resources[id]? = some r :=
  hm.exists_of_held (v := ⟨id, mode⟩) (Nat.add_pos_left (count_pos_of_release held) _)

/-- Whatever view of a resource is requested, the request is refused and changes nothing.  The fault
is of the borrowing kind, unless the key of the request cannot be shown. -/
def Refuses (m : Machine) (id : Nat) : Prop :=
  ∀ mode key p, m.control = .eval p → Demands m.session id mode key p →
    ∃ f, m.step = refuse f m.stack m.session ∧ m.step.session.shared = m.session.shared ∧
      f.kind = if (m.session.memory.text? key).isSome then .borrow else .badValue

theorem Reachable.refuses_of_release (hm : Reachable m) (held : .release id .write ∈ m.stack) :
    m.Refuses id := by
  intro mode key p control hdemands
  obtain ⟨r, found⟩ := hm.exists_of_release held
  have hobstacle := hm.obstacle?_of_release held found mode
  have hstep : m.step = begin p m.stack m.session := by
    rw [step, control]
  have hrefused := hdemands.begin_of_obstacle found hobstacle m.stack
  refine ⟨_, hstep.trans hrefused, ?_, Request.kind_fault_conflict ..⟩
  rw [hstep, hrefused]
  exact Session.shared_report ..

/-! ### Inside the write view of a value cache -/

/-- The program of a machine is at work on top of frames of which one holds a write view of a value
cache; the cache is `c`, and no frame on top of them is going to store a value in it. -/
structure Inside (id : Nat) (c : ValueCache) (base : List Frame) (m : Machine) : Prop where
  reachable : Reachable m
  found : m.session.resources[id]? = some (.value c)
  suffix : base <:+ m.stack
  held : .release id .write ∈ base
  storing : m.stack.countP (Frame.stores id) = base.countP (Frame.stores id)

namespace Inside

theorem held_stack (h : Inside id c base m) : .release id .write ∈ m.stack :=
  h.suffix.subset h.held

theorem obstacle? (h : Inside id c base m) (mode : Mode) : c.guard.obstacle? mode = some .write :=
  h.reachable.obstacle?_of_release h.held_stack h.found mode

/-- No other view of the cache is held, on top of the frames or under a name. -/
theorem alone (h : Inside id c base m) (mode : Mode) (above : List Frame)
    (hstack : m.stack = above ++ base) :
    (above.filterMap Frame.view?).count ⟨id, mode⟩ = 0 ∧
      m.session.views.values.count ⟨id, mode⟩ = 0 := by
  have hfaithful : Faithful m id c.guard := h.reachable.faithful h.found
  have hbase : 0 < (base.filterMap Frame.view?).count ⟨id, .write⟩ := count_pos_of_release h.held
  have hsplit (v : OpenView) : m.held v = (above.filterMap Frame.view?).count v +
      (base.filterMap Frame.view?).count v + m.session.views.values.count v := by
    rw [Machine.held, hstack, List.filterMap_append, List.count_append]
  have hsingle : m.held ⟨id, .write⟩ ≤ 1 := hfaithful.single
  have hwrite := hsplit ⟨id, .write⟩
  cases mode with
  | write => omega
  | read =>
    have hnone : m.held ⟨id, .read⟩ = 0 := hfaithful.alone (by omega)
    have hread := hsplit ⟨id, .read⟩
    omega

theorem not_named (h : Inside id c base m) (name : String) (mode : Mode) :
    m.session.views.get? name ≠ some ⟨id, mode⟩ := by
  obtain ⟨above, hstack⟩ := h.suffix
  have hcount := (h.alone mode above hstack.symm).2
  exact Table.not_mem_values_of_count h.reachable.accounted.distinct hcount name

/-- A frame on top of the others releases no view of the cache. -/
theorem release_ne (h : Inside id c base m) {i : Nat} {mode : Mode} {rest : List Frame}
    (hstack : m.stack = .release i mode :: rest) (hbase : base <:+ rest) : i ≠ id := by
  rintro rfl
  obtain ⟨above, rfl⟩ := hbase
  have hcount := (h.alone mode (.release i mode :: above) hstack).1
  have hpos : 0 < ((.release i mode :: above).filterMap Frame.view?).count ⟨i, mode⟩ :=
    count_pos_of_release (v := ⟨i, mode⟩) List.mem_cons_self
  omega

theorem storing_ne (h : Inside id c base m) {i : Nat} {k : Key} {rest : List Frame}
    (hstack : m.stack = .storing i k :: rest) (hbase : base <:+ rest) : i ≠ id := by
  rintro rfl
  have hle : base.countP (Frame.stores i) ≤ rest.countP (Frame.stores i) :=
    hbase.sublist.countP_le
  have hstoring := h.storing
  rw [hstack, List.countP_cons_of_pos (by simp [Frame.stores])] at hstoring
  omega

/-- Nothing that is done on top of the frames alters the cache. -/
theorem found_change (h : Inside id c base m) (hbase : base <:+ m'.stack) (hchange : Change m m') :
    m'.session.resources[id]? = some (.value c) := by
  have same (hresources : m'.session.shared.resources = m.session.shared.resources) :
      m'.session.shared.resources[id]? = some (.value c) := by
    rw [hresources]
    exact h.found
  have other {i : Nat} {r r' : Resource} (found : m.session.resources[i]? = some r)
      (shared : m'.session.shared = m.session.shared.set i r') (hi : i ≠ id) :
      m'.session.shared.resources[id]? = some (.value c) := by
    rw [shared, Shared.getElem?_resources_set (c := m.session.shared) found, if_neg hi.symm]
    exact h.found
  -- a view that nothing is in the way of is not one of the cache
  have ne_of_free {i : Nat} {r : Resource} {mode : Mode}
      (found : m.session.resources[i]? = some r) (free : r.guard.obstacle? mode = none) :
      i ≠ id := by
    rintro rfl
    obtain rfl := Option.some.inj (found.symm.trans h.found)
    cases (h.obstacle? mode).symm.trans free
  have ne_of_stable {i : Nat} {c' : StableCache}
      (found : m.session.resources[i]? = some (.stable c')) : i ≠ id := by
    rintro rfl
    cases found.symm.trans h.found
  show m'.session.shared.resources[id]? = _
  cases hchange with
  | idle shared | abandon _ _ _ _ shared | stray _ shared => exact same (by rw [shared])
  | depart _ shared | comeBack _ shared => exact same (by rw [shared])
  | make r new shared =>
    have hsize : id ≠ m.session.shared.resources.size :=
      Nat.ne_of_lt (Array.getElem?_eq_some_iff.mp h.found).1
    rw [shared, Shared.getElem?_resources_push, if_neg hsize]
    exact h.found
  | enter i mode r found free shared => exact other found shared (ne_of_free found free)
  | leave i mode shared stack =>
    rw [shared]
    exact (Session.resources_release_of_ne (h.release_ne stack hbase) mode).trans h.found
  | openNamed name i mode r found free shared =>
    have hset := Shared.getElem?_resources_set (c := m.session.shared) found
      (r.mapGuard (·.acquire mode)) id
    rw [if_neg (ne_of_free found free).symm] at hset
    have hdrop := Session.resources_dropNamed_of_ne
      (s := m.session.setResource i (r.mapGuard (·.acquire mode))) (h.not_named name)
    rw [shared]
    exact hdrop.trans (hset.trans h.found)
  | closeNamed name shared =>
    rw [shared]
    exact (Session.resources_dropNamed_of_ne (h.not_named name)).trans h.found
  | hitStable i c' _ _ found _ shared => exact other found shared (ne_of_stable found)
  | missStable i c' _ _ found _ _ _ _ _ _ shared => exact other found shared (ne_of_stable found)
  | finish i _ _ c' _ _ found shared => exact other found shared (ne_of_stable found)
  | hitValue i c' _ _ found free _ shared | missValue i c' _ found free _ _ shared =>
    have hfree : (Resource.value c').guard.obstacle? .write = none :=
      Guard.obstacle?_of_not_isBorrowed free .write
    exact other found shared (ne_of_free found hfree)
  | deposit i c' k v _ found shared stack =>
    exact other found shared (h.storing_ne stack hbase)

theorem change (h : Inside id c base m) (hmove : Move m m') (hbase : base <:+ m'.stack) :
    Inside id c base m' := by
  have hm' : Reachable m' := h.reachable.move hmove
  have found' := h.found_change hbase hmove.change
  refine ⟨hm', found', hbase, h.held, ?_⟩
  have hstoring := h.storing
  have hle : base.countP (Frame.stores id) ≤ m'.stack.countP (Frame.stores id) :=
    hbase.sublist.countP_le
  rcases hmove.change.stack_cases with
    hs | ⟨frame, hs⟩ | ⟨frame, htask, hs⟩ | ⟨i, key, k, c', -, -, hs⟩ | ⟨i, k, c', found, hs⟩
  · rw [hs, hstoring]
  · rw [hs, List.countP_cons] at hstoring
    omega
  · have hframe : ¬frame.stores id = true := by
      cases frame with
      | storing => cases htask
      | _ => exact Bool.false_ne_true
    rw [hs, List.countP_cons_of_neg hframe, hstoring]
  · rw [hs, List.countP_cons_of_neg (by exact Bool.false_ne_true), hstoring]
  · -- the cache does not start a computation while a write view is held
    have hne : i ≠ id := by
      rintro rfl
      have hheld : 0 < (m.stack.filterMap Frame.view?).count ⟨i, .write⟩ :=
        count_pos_of_release h.held_stack
      have hsingle : m'.held ⟨i, .write⟩ ≤ 1 := (hm'.faithful found').single
      rw [Machine.held, hs, List.filterMap_cons_none rfl, Frame.count_views_release,
        List.count_singleton_self] at hsingle
      omega
    have hframe : ¬(Frame.storing i k).stores id = true := by simp [Frame.stores, hne]
    rw [hs, List.countP_cons_of_neg hframe, List.countP_cons_of_neg (by exact Bool.false_ne_true),
      hstoring]

theorem trail (h : Inside id c base m) (htrail : Trail base m calls n) : Inside id c base n :=
  htrail.induction h.suffix h fun _ hm _ hmove hbase => hm.change hmove hbase

theorem ends (h : Inside id c base m) (hends : Ends base m n) : Inside id c base n := by
  obtain ⟨calls, hcourse⟩ := hends.exists_course
  exact h.trail hcourse.trail

end Inside

/-! ### One request -/

variable {place : Place} {key : Value} {compute : Value → Program} {k : Key}

/-- Why a request to a value cache is refused. -/
def Inadmissible (c : ValueCache) (key : Value) : Prop :=
  c.guard.isBorrowed = true ∨ (∃ u, key.key = .error u) ∨
    ∃ k, key.key = .ok k ∧ c.slots.get? k = none ∧ k.isShowable = false

/-- What a request to a value cache comes to. -/
theorem step_getValue_cases (control : m.control = .eval (.get place key compute))
    (found : m.session.resources[place.id]? = some (.value c)) :
    (Inadmissible c key ∧ ∃ f, m.step = refuse f m.stack m.session) ∨
    (∃ k v, key.key = .ok k ∧ c.guard.isBorrowed = false ∧ c.slots.get? k = some v ∧
      m.step.control = .eval (.copy v) ∧ m.step.stack = .release place.id .write :: m.stack ∧
      m.step.session.shared = m.session.shared.set place.id
        (.value { c.acquire .write with hits := c.hits + 1 })) ∨
    ∃ k, key.key = .ok k ∧ c.guard.isBorrowed = false ∧ c.slots.get? k = none ∧
      m.step.control = .eval (compute key) ∧
      m.step.stack = .storing place.id k :: .release place.id .write :: m.stack ∧
      m.step.session.shared = m.session.shared.set place.id (.value (c.acquire .write)) := by
  rw [step_eq_getValue control found]
  unfold getValue
  split
  · rename_i f hstart
    refine .inl ⟨?_, f, rfl⟩
    -- nothing else keeps the cache from answering
    by_contra hadmissible
    simp only [Inadmissible, not_or, Bool.not_eq_true, not_exists, not_and,
      Bool.not_eq_false] at hadmissible
    obtain ⟨free, hhashable, hshowable⟩ := hadmissible
    cases hkey : key.key with
    | error u => exact hhashable u hkey
    | ok k =>
      have hindex : (m.session.request key).index = .ok k := Request.index_eq_ok_iff.mpr hkey
      cases hslot : c.slots.get? k with
      | some v =>
        rw [ValueCache.start_eq_hit_iff.mpr ⟨free, ⟨k, hindex, hslot⟩, rfl⟩] at hstart
        cases hstart
      | none =>
        obtain ⟨shown, hshown⟩ := (m.session.spelled_isOk_iff hkey).mpr (hshowable k hkey hslot)
        rw [ValueCache.start_eq_miss_iff.mpr ⟨free, hindex, hslot, hshown, rfl⟩] at hstart
        cases hstart
  · rename_i v c' hstart
    obtain ⟨free, ⟨k, hindex, hslot⟩, rfl⟩ := ValueCache.start_eq_hit_iff.mp hstart
    exact .inr (.inl ⟨k, v, Request.index_eq_ok_iff.mp hindex, free, hslot, rfl, rfl, rfl⟩)
  · rename_i shown k c' hstart
    obtain ⟨free, hindex, hslot, -, rfl⟩ := ValueCache.start_eq_miss_iff.mp hstart
    exact .inr (.inr ⟨k, Request.index_eq_ok_iff.mp hindex, free, hslot, rfl, rfl, rfl⟩)

/-- The outcome of `m` goes on to the frames `base`, where the resource is `r`. -/
def Delivers (m : Machine) (id : Nat) (r : Resource) (base : List Frame) : Prop :=
  m.step.control = m.control ∧ m.step.stack = base ∧ m.step.session.resources[id]? = some r

/-- The write view is left at the end of the copy, whatever the outcome of the copy is. -/
theorem Inside.delivers {c' : ValueCache} (h : Inside id c (.release id .write :: base) m)
    (hends : Ends (.release id .write :: base) m n)
    (hc : { c with guard := c.guard.release .write } = c') :
    n.Delivers id (.value c') base := by
  have hinside := h.ends hends
  have hstep := step_release hends.stack_eq hends.isOutcome
  refine ⟨by rw [hstep], by rw [hstep], ?_⟩
  rw [hstep, ← hc]
  exact Session.resources_release_of_found hinside.found .write

/-- A computation that fails leaves the cache as it was. -/
theorem Inside.abandons {c' : ValueCache} {f : Fault}
    (h : Inside id c (.storing id k :: .release id .write :: base) m)
    (hends : Ends (.storing id k :: .release id .write :: base) m n)
    (control : n.control = .raise f) (hc : { c with guard := c.guard.release .write } = c') :
    n.step.control = .raise f ∧ n.step.Delivers id (.value c') base := by
  have found : n.session.resources[id]? = some (.value c) := (h.ends hends).found
  have hstep : n.step = ⟨.raise f, .release id .write :: base, n.session⟩ := by
    rw [step, control, hends.stack_eq]
    rfl
  have hrelease : n.step.step = ⟨.raise f, base, n.session.release id .write⟩ := by
    rw [hstep]
    rfl
  refine ⟨by rw [hstep], ?_⟩
  rw [Delivers, hrelease]
  refine ⟨by rw [hstep], rfl, ?_⟩
  rw [← hc]
  exact Session.resources_release_of_found found .write

/-- A computation that returns a value has the value stored, and its copy is made next. -/
theorem Inside.deposits {v : Value}
    (h : Inside id c (.storing id k :: .release id .write :: base) m)
    (hends : Ends (.storing id k :: .release id .write :: base) m n)
    (control : n.control = .give v) :
    n.step.control = .eval (.copy v) ∧ n.step.stack = .release id .write :: base ∧
      Inside id (c.deposit k v) (.release id .write :: base) n.step := by
  have hn : Reachable n := (h.ends hends).reachable
  have found : n.session.resources[id]? = some (.value c) := (h.ends hends).found
  have hstep : n.step =
      ⟨.eval (.copy v), .release id .write :: base, n.session.setValue id (c.deposit k v)⟩ := by
    rw [step, control, hends.stack_eq]
    show deposit id k v _ n.session = _
    rw [deposit, found]
  have hset := Session.getElem?_setResource_self found (.value (c.deposit k v))
  have hmove : Move n n.step := .step (outcome?_eq_none_of_stack hends.stack_eq)
  refine ⟨by rw [hstep], by rw [hstep], hn.move hmove, ?_, ?_, List.mem_cons_self, ?_⟩
  · rw [hstep]
    exact hset
  · exact ⟨[], congrArg Machine.stack hstep.symm⟩
  · rw [hstep]

theorem release_acquire_guard (free : c.guard.isBorrowed = false) :
    (c.guard.acquire .write).release .write = c.guard :=
  c.guard.release_acquire .write (Guard.obstacle?_of_not_isBorrowed free .write)

/-- **A value cache is alone with its computation and its copy.**  A request is refused and changes
nothing, or it is answered inside a write view, in which every request for another view is refused.
So it does not matter what the computation and the copy do: for a key with a value the cache counts
a hit; if the computation fails, its fault is passed on and the cache is as it was; and if it
returns a value, that is stored and a miss counted, whether or not the copy is made. -/
theorem exclusive_and_atomic (hm : Reachable m)
    (control : m.control = .eval (.get place key compute))
    (found : m.session.resources[place.id]? = some (.value c)) :
    (Inadmissible c key ∧ ∃ f, m.step = refuse f m.stack m.session ∧
      m.step.session.shared = m.session.shared) ∨
    ∃ k, key.key = .ok k ∧ c.guard.isBorrowed = false ∧
      (∀ calls n, Trail (.release place.id .write :: m.stack) m.step calls n →
        n.Refuses place.id) ∧
      ((∃ v, c.slots.get? k = some v ∧ m.step.control = .eval (.copy v) ∧
          m.step.stack = .release place.id .write :: m.stack ∧
          ∀ m₁, Ends (.release place.id .write :: m.stack) m.step m₁ →
            m₁.Delivers place.id (.value { c with hits := c.hits + 1 }) m.stack) ∨
        c.slots.get? k = none ∧ m.step.control = .eval (compute key) ∧
          m.step.stack = .storing place.id k :: .release place.id .write :: m.stack ∧
          ∀ m₁, Ends (.storing place.id k :: .release place.id .write :: m.stack) m.step m₁ →
            (∀ f, m₁.control = .raise f → m₁.step.control = .raise f ∧
              m₁.step.Delivers place.id (.value c) m.stack) ∧
            ∀ v, m₁.control = .give v → m₁.step.control = .eval (.copy v) ∧
              m₁.step.stack = .release place.id .write :: m.stack ∧
              ∀ m₂, Ends (.release place.id .write :: m.stack) m₁.step m₂ →
                m₂.Delivers place.id
                  (.value { c with slots := c.slots.insert k v, misses := c.misses + 1 })
                  m.stack) := by
  have hmove : Move m m.step := .step (outcome?_eq_none_of_eval control)
  have hm' : Reachable m.step := hm.move hmove
  have refuses (hsuffix : .release place.id .write :: m.stack <:+ m.step.stack) (calls : List Task)
      (n : Machine) (htrail : Trail (.release place.id .write :: m.stack) m.step calls n) :
      n.Refuses place.id := by
    have hheld : .release place.id .write ∈ n.stack :=
      (htrail.suffix hsuffix).subset List.mem_cons_self
    exact (hm'.leads (htrail.leads hsuffix)).refuses_of_release hheld
  have placed {r : Resource} (shared : m.step.session.shared = m.session.shared.set place.id r) :
      m.step.session.resources[place.id]? = some r := by
    show m.step.session.shared.resources[place.id]? = _
    rw [shared, Shared.getElem?_resources_set (c := m.session.shared) found, if_pos rfl]
  rcases step_getValue_cases control found with
    ⟨hreason, f, hstep⟩ | ⟨k, v, hkey, free, hslot, hcopy, hstack, hshared⟩ |
    ⟨k, hkey, free, hslot, hcall, hstack, hshared⟩
  · exact .inl ⟨hreason, f, hstep, hstep ▸ Session.shared_report ..⟩
  · have hsuffix : .release place.id .write :: m.stack <:+ m.step.stack := ⟨[], hstack.symm⟩
    refine .inr ⟨k, hkey, free, refuses hsuffix, .inl ⟨v, hslot, hcopy, hstack, ?_⟩⟩
    intro m₁ hends
    have hinside : Inside place.id { c.acquire .write with hits := c.hits + 1 }
        (.release place.id .write :: m.stack) m.step :=
      ⟨hm', placed hshared, hsuffix, List.mem_cons_self, by rw [hstack]⟩
    refine hinside.delivers hends ?_
    rw [ValueCache.acquire, release_acquire_guard free]
  · have hsuffix : .storing place.id k :: .release place.id .write :: m.stack <:+ m.step.stack :=
      ⟨[], hstack.symm⟩
    refine .inr ⟨k, hkey, free, refuses ((List.suffix_cons ..).trans hsuffix),
      .inr ⟨hslot, hcall, hstack, ?_⟩⟩
    intro m₁ hends
    have hinside : Inside place.id (c.acquire .write)
        (.storing place.id k :: .release place.id .write :: m.stack) m.step :=
      ⟨hm', placed hshared, hsuffix, List.mem_cons_of_mem _ List.mem_cons_self, by rw [hstack]⟩
    have hreleased :
        { c.acquire .write with guard := (c.acquire .write).guard.release .write } = c := by
      rw [ValueCache.acquire, release_acquire_guard free]
    constructor
    · intro f hf
      exact hinside.abandons hends hf hreleased
    · intro v hv
      obtain ⟨hcopy, hstack₁, hinside₁⟩ := hinside.deposits hends hv
      refine ⟨hcopy, hstack₁, ?_⟩
      intro m₂ hends₂
      refine hinside₁.delivers hends₂ ?_
      exact congrArg (ValueCache.deposit · k v) hreleased

/-- Computes `k` with the value of a membership test of the same cache on another thread, if the
test is not refused. -/
def testInside (asked : Value) (place : Place) : Program :=
  .get place (.text "k") fun _ =>
    .attempt (.on "worker" (.contains place asked)) [.borrow] fun _ => .done (.int 1)

/-- The machine that asks a new value cache for `k`. -/
def askingAlone (asked : Value) : Machine :=
  (load (.andThen (.perform (.create (.value "c" none)))
    (.reach (.named "c") (testInside asked))) (.start .events [])).run 4

/-- The machine that makes the membership test, inside the computation of `k`. -/
def testing (asked : Value) : Machine := (askingAlone asked).step.run 2

theorem trail_testing (asked : Value) :
    Trail [.release 0 .write] (askingAlone asked).step [] (testing asked) := by
  have hbegun :
      Trail [.release 0 .write] (askingAlone asked).step [] (askingAlone asked).step.step :=
    .eval rfl (by rintro _ _ _ ⟨⟩) rfl
  exact hbegun.trans (.eval rfl (by rintro _ _ _ ⟨⟩) rfl)

theorem exclusive_and_atomic_testInside :
    Reachable (askingAlone (.text "j")) ∧
      Trail [.release 0 .write] (askingAlone (.text "j")).step [] (testing (.text "j")) ∧
      (∃ f, (testing (.text "j")).step.control = .raise f ∧ f.kind = .borrow ∧
        (testing (.text "j")).step.session.shared = (testing (.text "j")).session.shared) ∧
      ∃ c, (askingAlone (.text "j")).session.resources[0]? = some (.value c) ∧
        ∃ m₁ m₂, Ends [.storing 0 (.ofAtoms [.text "k"]), .release 0 .write]
          (askingAlone (.text "j")).step m₁ ∧ m₁.control = .give (.int 1) ∧
          Ends [.release 0 .write] m₁.step m₂ ∧
          m₂.Delivers 0 (.value { c with
            slots := c.slots.insert (.ofAtoms [.text "k"]) (.int 1), misses := c.misses + 1 })
            [] := by
  have hm : Reachable (askingAlone (.text "j")) := (Reachable.start ..).leads (leads_run ..)
  have htrail := trail_testing (.text "j")
  obtain ⟨c, found⟩ : ∃ c, (askingAlone (.text "j")).session.resources[0]? = some (.value c) :=
    ⟨_, rfl⟩
  rcases exclusive_and_atomic hm rfl found with
    ⟨-, f, hrefused, -⟩ | ⟨k, hkey, -, hrefuses, ⟨v, -, hcopy, -⟩ | ⟨-, -, -, hcomputed⟩⟩
  · cases congrArg Machine.control hrefused
  · cases hcopy
  · obtain rfl : .ofAtoms [.text "k"] = k := Except.ok.inj hkey
    obtain ⟨f, hstep, hshared, hkind⟩ := hrefuses _ _ htrail .read (.text "j") _ rfl
      (@Demands.contains _ _ ⟨0, none⟩ rfl _ rfl rfl (.text "j"))
    have hends : Ends [.storing 0 (.ofAtoms [.text "k"]), .release 0 .write]
        (askingAlone (.text "j")).step ((askingAlone (.text "j")).step.run 6) :=
      .of_find? 7 List.suffix_rfl rfl
    obtain ⟨-, hgiven⟩ := hcomputed _ hends
    obtain ⟨-, -, hcopied⟩ := hgiven (.int 1) rfl
    have hends₂ : Ends [.release 0 .write] ((askingAlone (.text "j")).step.run 6).step
        (((askingAlone (.text "j")).step.run 6).step.run 1) := .of_find? 2 List.suffix_rfl rfl
    exact ⟨hm, htrail, ⟨f, by rw [hstep]; rfl, hkind, hshared⟩, c, found, _, _, hends, rfl, hends₂,
      hcopied _ hends₂⟩

/-- While a value cache computes, a membership test on it is refused with a fault that is not of the
borrowing kind, because the key it is made with cannot be shown. -/
theorem refusal_lost_on_long_key :
    Reachable (askingAlone longKey) ∧
      (askingAlone longKey).step.stack =
        [.storing 0 (.ofAtoms [.text "k"]), .release 0 .write] ∧
      Trail [.release 0 .write] (askingAlone longKey).step [] (testing longKey) ∧
      (testing longKey).control = .eval (.contains ⟨0, none⟩ longKey) ∧
      ∃ f, (testing longKey).step.control = .raise f ∧ f.kind ≠ .borrow := by
  have hm : Reachable (askingAlone longKey) := (Reachable.start ..).leads (leads_run ..)
  have htrail := trail_testing longKey
  have htesting : Reachable (testing longKey) :=
    (hm.move (.step rfl)).leads (htrail.leads (List.suffix_cons ..))
  have hheld : .release 0 .write ∈ (testing longKey).stack :=
    (htrail.suffix (List.suffix_cons ..)).subset List.mem_cons_self
  obtain ⟨f, hstep, -, hkind⟩ := htesting.refuses_of_release hheld .read longKey _ rfl
    (@Demands.contains _ _ ⟨0, none⟩ rfl _ rfl rfl longKey)
  refine ⟨hm, rfl, htrail, rfl, f, by rw [hstep]; rfl, ?_⟩
  rw [hkind, Memory.text?_longKey]
  decide

end Machine

end CheckedMemo
