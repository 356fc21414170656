import CheckedMemo.Proofs.Exclusion
import CheckedMemo.Proofs.Journal
import CheckedMemo.Proofs.Requests
import Mathlib.Logic.Function.Basic

/-!
# What caches count

The account of a cache is what it has counted and what it has stored.  A move leaves all accounts as
they are, or it is a request that finds its key, or the value of a computation is stored
(`Reachable.account_cases`); everything else follows from these cases.

Over a whole session (`lookups_accounted`): a cache has counted as many misses as it has stored
keys, and as many hits as there were requests that found their key, and it has logged a miss for
every computation that it has started.
-/

namespace CheckedMemo

/-! ### Accounts -/

/-- What a cache has counted, and what it has stored. -/
structure Account where
  hits : Nat := 0
  misses : Nat := 0
  slots : Table Key Value := ∅

namespace Account

/-- A request has found its key. -/
def hit (a : Account) : Account := { a with hits := a.hits + 1 }

/-- The value of a computation is stored. -/
def store (a : Account) (k : Key) (v : Value) : Account :=
  { a with misses := a.misses + 1, slots := a.slots.insert k v }

/-- There are as many misses as keys with a value. -/
def Balanced (a : Account) : Prop := a.misses = a.slots.size ∧ a.slots.keys.Nodup

theorem Balanced.hit {a : Account} (h : a.Balanced) : a.hit.Balanced := h

theorem Balanced.store {a : Account} (h : a.Balanced) {k : Key} (hk : a.slots.get? k = none)
    (v : Value) : (a.store k v).Balanced := by
  obtain ⟨hmisses, hdistinct⟩ := h
  refine ⟨?_, Table.nodup_keys_insert hdistinct hk v⟩
  -- a key that had no value is added at the end
  show a.misses + 1 = (a.slots.insert k v).size
  rw [Table.insert_of_get? hk, hmisses, Table.size, Table.size, List.length_append,
    List.length_singleton]

end Account

/-- The account of a cache; there is nothing to account for in a cell. -/
def Resource.account : Resource → Account
  | .cell .. => {}
  | .stable c => ⟨c.hits, c.misses, c.slots⟩
  | .value c => ⟨c.hits, c.misses, c.slots⟩

theorem Resource.account_mapGuard (f : Guard → Guard) (r : Resource) :
    (r.mapGuard f).account = r.account := by
  cases r <;> rfl

/-- The view in which a cache looks a key up. -/
def Resource.lookupMode : Resource → Mode
  | .value _ => .write
  | _ => .read

/-- The end of a computation stores its value and counts a miss, or it fails and counts nothing. -/
theorem StableCache.account_finish {c : StableCache} {k : Key} (hk : c.slots.get? k = none)
    (key : Spelled) (outcome : Except Fault Value) :
    (∃ f, (c.finish key k outcome).outcome = .error f ∧
      (Resource.stable (c.finish key k outcome).cache).account = (Resource.stable c).account) ∨
    ∃ v, outcome = .ok v ∧ (c.finish key k outcome).outcome = .ok v ∧
      (Resource.stable (c.finish key k outcome).cache).account =
        (Resource.stable c).account.store k v := by
  by_cases h : c.guard.isBorrowed = true
  · obtain ⟨active, -, hcache, houtcome⟩ := finish_of_borrowed h key k outcome
    exact .inl ⟨_, houtcome, by rw [hcache]⟩
  · rw [Bool.not_eq_true] at h
    cases outcome with
    | error f =>
      rw [finish_error_of_free h]
      exact .inl ⟨f, rfl, rfl⟩
    | ok v =>
      have hslots : c.slots.insertIfNew k v = c.slots.insert k v := by
        rw [Table.insertIfNew, Table.contains, hk]
        rfl
      rw [finish_ok_of_free h]
      refine .inr ⟨v, rfl, ?_, ?_⟩
      · simp [hk]
      · show Account.mk c.hits (c.misses + 1) (c.slots.insertIfNew k v) = _
        rw [hslots]
        rfl

namespace Shared

variable {c : Shared} {id : Nat} {r r' : Resource}

/-- The account of each cache. -/
def account (c : Shared) (id : Nat) : Account := (c.resources[id]?).elim {} Resource.account

theorem account_of_found (found : c.resources[id]? = some r) : c.account id = r.account := by
  rw [account, found]
  rfl

theorem account_set (found : c.resources[id]? = some r) (r' : Resource) :
    (c.set id r').account = Function.update c.account id r'.account := by
  funext i
  rw [account, getElem?_resources_set found]
  by_cases hi : i = id
  · rw [if_pos hi, hi, Function.update_self]
    rfl
  · rw [if_neg hi, Function.update_of_ne hi]
    rfl

theorem account_set_of_eq (found : c.resources[id]? = some r) (h : r'.account = r.account) :
    (c.set id r').account = c.account := by
  rw [account_set found, h, ← account_of_found found, Function.update_eq_self]

theorem account_push (hr : r.New) : (c.push r).account = c.account := by
  funext i
  have hnew : r.account = {} := by cases hr <;> rfl
  rw [account, account, getElem?_resources_push]
  by_cases hi : i = c.resources.size
  · rw [if_pos hi, Option.elim_some, hnew, hi, Array.getElem?_size]
    rfl
  · rw [if_neg hi]

end Shared

theorem Session.account_release (s : Session) (id : Nat) (mode : Mode) :
    (s.release id mode).shared.account = s.shared.account := by
  unfold release
  split
  · rename_i r found
    exact Shared.account_set_of_eq (c := s.shared) found (Resource.account_mapGuard ..)
  · rfl

theorem Session.account_dropNamed (s : Session) (name : String) :
    (s.dropNamed name).shared.account = s.shared.account := by
  unfold dropNamed
  split
  · rfl
  · exact account_release ..

namespace Machine

variable {m m' : Machine} {id : Nat}

/-- The account of each cache. -/
def account (m : Machine) : Nat → Account := m.session.shared.account

/-! ### Moves and accounts -/

/-- A cache that computes a key has no value for it. -/
theorem Reachable.get?_of_computing (hm : Reachable m) {c : StableCache} {key : Spelled} {k : Key}
    {rest : List Frame} (stack : m.stack = .computing id key k :: rest)
    (found : m.session.resources[id]? = some (.stable c)) : c.slots.get? k = none := by
  have hmem : (⟨id, k⟩ : Task) ∈ m.tasks := by
    rw [tasks, stack]
    exact List.mem_cons_self
  have hunstored := hm.sound.unstored _ hmem
  rwa [Shared.stored_of_found (c := m.session.shared) found] at hunstored

theorem Reachable.get?_of_storing (hm : Reachable m) {c : ValueCache} {k : Key}
    {rest : List Frame} (stack : m.stack = .storing id k :: rest)
    (found : m.session.resources[id]? = some (.value c)) : c.slots.get? k = none := by
  have hmem : (⟨id, k⟩ : Task) ∈ m.tasks := by
    rw [tasks, stack]
    exact List.mem_cons_self
  have hunstored := hm.sound.unstored _ hmem
  rwa [Shared.stored_of_found (c := m.session.shared) found] at hunstored

/-- **A move counts at most once.**  All accounts stay as they are, or a request finds its key, or
the value of a computation is stored for a key that had none. -/
theorem Reachable.account_cases (hm : Reachable m) (h : Change m m') :
    m'.account = m.account ∨
    (∃ place key compute, m.control = .eval (.get place key compute) ∧
      m'.account = Function.update m.account place.id (m.account place.id).hit) ∨
    ∃ x v, m.Returns x v ∧ (m.account x.cache).slots.get? x.key = none ∧
      m'.account =
        Function.update m.account x.cache ((m.account x.cache).store x.key v) := by
  simp only [account]
  cases h with
  | idle shared | abandon _ _ _ _ shared | stray _ shared =>
    left
    rw [shared]
  | make r new shared =>
    left
    rw [shared]
    exact Shared.account_push new
  | depart thread shared | comeBack thread shared =>
    left
    rw [shared]
    rfl
  | enter id mode r found free shared =>
    left
    rw [shared]
    exact Shared.account_set_of_eq (c := m.session.shared) found (Resource.account_mapGuard ..)
  | leave id mode shared =>
    left
    rw [shared]
    exact Session.account_release ..
  | openNamed name id mode r found free shared =>
    left
    rw [shared]
    exact (Session.account_dropNamed ..).trans
      (Shared.account_set_of_eq (c := m.session.shared) found (Resource.account_mapGuard ..))
  | closeNamed name shared =>
    left
    rw [shared]
    exact Session.account_dropNamed ..
  | hitStable id c k v found stored shared stack asks =>
    obtain ⟨place, key, compute, control, rfl⟩ := asks
    refine .inr (.inl ⟨place, key, compute, control, ?_⟩)
    rw [shared, Shared.account_set (c := m.session.shared) found,
      Shared.account_of_found (c := m.session.shared) found]
    rfl
  | hitValue id c k v found free stored shared stack asks =>
    obtain ⟨place, key, compute, control, rfl⟩ := asks
    refine .inr (.inl ⟨place, key, compute, control, ?_⟩)
    rw [shared, Shared.account_set (c := m.session.shared) found,
      Shared.account_of_found (c := m.session.shared) found]
    rfl
  | missStable id c _ _ found _ _ _ _ _ _ shared =>
    left
    rw [shared]
    exact Shared.account_set_of_eq (c := m.session.shared) found rfl
  | missValue id c _ found _ _ _ shared =>
    left
    rw [shared]
    exact Shared.account_set_of_eq (c := m.session.shared) found rfl
  | finish id key k c outcome control found shared stack =>
    have habsent : c.slots.get? k = none := hm.get?_of_computing stack found
    rcases StableCache.account_finish habsent key outcome with
      ⟨f, -, haccount⟩ | ⟨v, rfl, -, haccount⟩
    · left
      rw [shared]
      exact Shared.account_set_of_eq (c := m.session.shared) found haccount
    · refine .inr (.inr ⟨⟨id, k⟩, v, ⟨control, _, _, stack, rfl⟩, ?_, ?_⟩)
      · rw [Shared.account_of_found (c := m.session.shared) found]
        exact habsent
      · rw [shared, Shared.account_set (c := m.session.shared) found, haccount,
          Shared.account_of_found (c := m.session.shared) found]
  | deposit id c k v control found shared stack =>
    have habsent : c.slots.get? k = none := hm.get?_of_storing stack found
    refine .inr (.inr ⟨⟨id, k⟩, v, ⟨control, _, _, stack, rfl⟩, ?_, ?_⟩)
    · rw [Shared.account_of_found (c := m.session.shared) found]
      exact habsent
    · rw [shared, Shared.account_set (c := m.session.shared) found,
        Shared.account_of_found (c := m.session.shared) found]
      rfl

/-- There are as many misses as stored keys, at every point of a session. -/
theorem Reachable.balanced (hm : Reachable m) (id : Nat) : (m.account id).Balanced := by
  refine hm.induction (P := fun n => ∀ i, (n.account i).Balanced) ?_ ?_ id
  · intro n _ hshared i
    rw [account, hshared]
    exact ⟨rfl, List.nodup_nil⟩
  · intro n n' hn hbalanced hchange
    rcases hn.account_cases hchange with
      haccount | ⟨place, -, -, -, haccount⟩ | ⟨x, v, -, hx, haccount⟩
    · rw [haccount]
      exact hbalanced
    · rw [haccount, Function.forall_update_iff]
      exact ⟨(hbalanced place.id).hit, fun i _ => hbalanced i⟩
    · rw [haccount, Function.forall_update_iff]
      exact ⟨(hbalanced x.cache).store hx v, fun i _ => hbalanced i⟩

/-- Whatever is evaluated but a request to a cache, nothing is counted at once. -/
theorem Reachable.account_step_of_eval (hm : Reachable m) {p : Program}
    (control : m.control = .eval p) (hp : ∀ place key compute, p ≠ .get place key compute) :
    m.step.account = m.account := by
  rcases hm.account_cases (step_change m) with
    haccount | ⟨place, key, compute, hget, -⟩ | ⟨x, v, ⟨hgive, -⟩, -⟩
  · exact haccount
  · cases control.symm.trans hget
    exact absurd rfl (hp place key compute)
  · cases control.symm.trans hgive

/-! ### Requests that find their key -/

/-- The cache `id` is asked for a key that it has a value for, and no view keeps it from looking. -/
def Finds (m : Machine) (id : Nat) : Prop :=
  ∃ place key compute k v r, m.control = .eval (.get place key compute) ∧ place.id = id ∧
    key.key = .ok k ∧ m.session.resources[id]? = some r ∧ r.slots.get? k = some v ∧
    r.guard.obstacle? r.lookupMode = none

section

variable {place : Place} {key : Value} {compute : Value → Program}

theorem finds_iff (control : m.control = .eval (.get place key compute)) :
    m.Finds id ↔ place.id = id ∧ ∃ k v r, key.key = .ok k ∧
      m.session.resources[place.id]? = some r ∧ r.slots.get? k = some v ∧
      r.guard.obstacle? r.lookupMode = none := by
  constructor
  · rintro ⟨place', key', compute', k, v, r, control', rfl, hrest⟩
    cases control.symm.trans control'
    exact ⟨rfl, k, v, r, hrest⟩
  · rintro ⟨rfl, k, v, r, hrest⟩
    exact ⟨place, key, compute, k, v, r, control, rfl, hrest⟩

theorem step_get_of_other (control : m.control = .eval (.get place key compute))
    (hstable : ∀ c, m.session.resources[place.id]? ≠ some (.stable c))
    (hvalue : ∀ c, m.session.resources[place.id]? ≠ some (.value c)) :
    m.step = refuse Session.unsuitable m.stack m.session := by
  rw [step, control]
  show Machine.get place.id key compute m.stack m.session = _
  unfold Machine.get
  split
  · rename_i found
    exact absurd found (hstable _)
  · rename_i found
    exact absurd found (hvalue _)
  · rfl

theorem account_refuse (f : Fault) (stack : List Frame) (s : Session) :
    (refuse f stack s).account = s.shared.account :=
  congrArg Shared.account (Session.shared_report ..)

/-- A request counts a hit exactly if it finds its key. -/
theorem account_get (control : m.control = .eval (.get place key compute)) :
    m.Finds place.id ∧
        m.step.account = Function.update m.account place.id (m.account place.id).hit ∨
      ¬m.Finds place.id ∧ m.step.account = m.account := by
  rw [finds_iff control, account, account]
  by_cases hstable : ∃ c, m.session.resources[place.id]? = some (.stable c)
  · obtain ⟨c, found⟩ := hstable
    rw [step_eq_getStable control found, found]
    cases hstart : c.start m.session.thread (m.session.request key) with
    | error f =>
      right
      rw [getStable, hstart]
      refine ⟨?_, account_refuse ..⟩
      rintro ⟨-, k, v, r, hkey, ⟨⟩, hslot, hfree⟩
      rw [StableCache.start_eq_hit_iff.mpr
        ⟨hfree, ⟨k, Request.index_eq_ok_iff.mpr hkey, hslot⟩, rfl⟩] at hstart
      cases hstart
    | ok answer =>
      rw [getStable, hstart]
      cases answer with
      | hit v c' =>
        obtain ⟨hfree, ⟨k, hindex, hslot⟩, rfl⟩ := StableCache.start_eq_hit_iff.mp hstart
        refine .inl ⟨⟨rfl, k, v, _, Request.index_eq_ok_iff.mp hindex, rfl, hslot, hfree⟩, ?_⟩
        show (m.session.shared.set place.id _).account = _
        rw [Shared.account_set (c := m.session.shared) found,
          Shared.account_of_found (c := m.session.shared) found]
        rfl
      | miss shown k c' =>
        obtain ⟨-, hindex, hnone, -, -, rfl⟩ := StableCache.start_eq_miss_iff.mp hstart
        refine .inr ⟨?_, Shared.account_set_of_eq (c := m.session.shared) found rfl⟩
        rintro ⟨-, k', v, r, hkey, ⟨⟩, hslot, -⟩
        cases hkey.symm.trans (Request.index_eq_ok_iff.mp hindex)
        cases hslot.symm.trans hnone
  · by_cases hvalue : ∃ c, m.session.resources[place.id]? = some (.value c)
    · obtain ⟨c, found⟩ := hvalue
      rw [found]
      rcases step_getValue_cases control found with
        ⟨hreason, f, hstep⟩ | ⟨k, v, hkey, hfree, hslot, -, -, hshared⟩ |
        ⟨k, hkey, -, hnone, -, -, hshared⟩
      · right
        rw [hstep]
        refine ⟨?_, account_refuse ..⟩
        rintro ⟨-, k, v, r, hkey, ⟨⟩, hslot, hfree⟩
        rcases hreason with hborrowed | ⟨u, hu⟩ | ⟨k', hk', hnone, -⟩
        · cases hborrowed.symm.trans (Guard.not_isBorrowed_of_free hfree)
        · cases hkey.symm.trans hu
        · cases hkey.symm.trans hk'
          cases hslot.symm.trans hnone
      · refine .inl ⟨⟨rfl, k, v, _, hkey, rfl, hslot, ?_⟩, ?_⟩
        · exact Guard.obstacle?_of_not_isBorrowed hfree _
        · rw [hshared, Shared.account_set (c := m.session.shared) found,
            Shared.account_of_found (c := m.session.shared) found]
          rfl
      · right
        rw [hshared]
        refine ⟨?_, Shared.account_set_of_eq (c := m.session.shared) found rfl⟩
        rintro ⟨-, k', v, r, hkey', ⟨⟩, hslot, -⟩
        cases hkey.symm.trans hkey'
        cases hslot.symm.trans hnone
    · right
      rw [step_get_of_other control (fun c found => hstable ⟨c, found⟩)
        fun c found => hvalue ⟨c, found⟩]
      refine ⟨?_, account_refuse ..⟩
      rintro ⟨-, k, v, r, -, found, hslot, -⟩
      cases r with
      | cell => cases hslot
      | stable c => exact hstable ⟨c, found⟩
      | value c => exact hvalue ⟨c, found⟩

end

/-- The hits of a cache are counted at the requests that find their key, and nowhere else. -/
theorem Reachable.hits_move (hm : Reachable m) (h : Move m m') (id : Nat) :
    m.Finds id ∧ (m'.account id).hits = (m.account id).hits + 1 ∨
      ¬m.Finds id ∧ (m'.account id).hits = (m.account id).hits := by
  by_cases hget : ∃ place key compute, m.control = .eval (.get place key compute)
  · obtain ⟨place, key, compute, control⟩ := hget
    obtain rfl := h.eq_step_of_eval control
    by_cases hid : id = place.id
    · subst hid
      rcases account_get control with ⟨hfinds, haccount⟩ | ⟨hfinds, haccount⟩
      · rw [haccount, Function.update_self]
        exact .inl ⟨hfinds, rfl⟩
      · rw [haccount]
        exact .inr ⟨hfinds, rfl⟩
    · refine .inr ⟨fun hfinds => hid ((finds_iff control).mp hfinds).1.symm, ?_⟩
      rcases account_get control with ⟨-, haccount⟩ | ⟨-, haccount⟩
      · rw [haccount, Function.update_of_ne hid]
      · rw [haccount]
  · right
    refine ⟨?_, ?_⟩
    · rintro ⟨place, key, compute, -, -, -, control, -⟩
      exact hget ⟨place, key, compute, control⟩
    · rcases hm.account_cases h.change with
        haccount | ⟨place, key, compute, control, -⟩ | ⟨x, v, -, -, haccount⟩
      · rw [haccount]
      · exact absurd ⟨place, key, compute, control⟩ hget
      · rw [haccount]
        by_cases hid : id = x.cache
        · rw [hid, Function.update_self]
          rfl
        · rw [Function.update_of_ne hid]

/-! ### One request -/

/-- The outcome of `m` goes on to the frames `base`, and nothing is counted. -/
def HandsOn (m : Machine) (base : List Frame) : Prop :=
  m.step.control = m.control ∧ m.step.stack = base ∧ m.step.account = m.account

/-- What a request counts on its own account, whatever the requests that it brings about count.  A
request that a stable cache answers with a value has counted one hit or one miss, and one that fails
has counted nothing.  A value cache counts before it makes the copy, and so a request to it that
fails has counted one only if the copy has failed. -/
inductive CountsOnce (m : Machine) (place : Place) (key : Value) (compute : Value → Program) :
    Prop where
  | refused (f : Fault) (control : m.step.control = .raise f) (stack : m.step.stack = m.stack)
    (account : m.step.account = m.account)
  | hitStable (c : StableCache) (v : Value)
    (found : m.session.resources[place.id]? = some (.stable c))
    (control : m.step.control = .give v) (stack : m.step.stack = m.stack)
    (account : m.step.account =
      Function.update m.account place.id (m.account place.id).hit)
  | missStable (c : StableCache) (frame : Frame)
    (found : m.session.resources[place.id]? = some (.stable c))
    (control : m.step.control = .eval (compute key)) (stack : m.step.stack = frame :: m.stack)
    (account : m.step.account = m.account)
    (ends : ∀ m₁, Ends (frame :: m.stack) m.step m₁ → m₁.step.stack = m.stack ∧
      ((∃ f, m₁.step.control = .raise f ∧ m₁.step.account = m₁.account) ∨
        ∃ k v, key.key = .ok k ∧ m₁.step.control = .give v ∧ m₁.step.account =
          Function.update m₁.account place.id ((m₁.account place.id).store k v)))
  | hitValue (c : ValueCache) (v : Value)
    (found : m.session.resources[place.id]? = some (.value c))
    (control : m.step.control = .eval (.copy v))
    (stack : m.step.stack = .release place.id .write :: m.stack)
    (account : m.step.account =
      Function.update m.account place.id (m.account place.id).hit)
    (ends : ∀ m₁, Ends (.release place.id .write :: m.stack) m.step m₁ → m₁.HandsOn m.stack)
  | missValue (c : ValueCache) (k : Key)
    (found : m.session.resources[place.id]? = some (.value c))
    (control : m.step.control = .eval (compute key)) (hkey : key.key = .ok k)
    (stack : m.step.stack = .storing place.id k :: .release place.id .write :: m.stack)
    (account : m.step.account = m.account)
    (fails : ∀ m₁ f, Ends (.storing place.id k :: .release place.id .write :: m.stack) m.step m₁ →
      m₁.control = .raise f →
        m₁.HandsOn (.release place.id .write :: m.stack) ∧ m₁.step.HandsOn m.stack)
    (returns : ∀ m₁ v,
      Ends (.storing place.id k :: .release place.id .write :: m.stack) m.step m₁ →
      m₁.control = .give v → m₁.step.control = .eval (.copy v) ∧
        m₁.step.stack = .release place.id .write :: m.stack ∧
        m₁.step.account =
          Function.update m₁.account place.id ((m₁.account place.id).store k v) ∧
        ∀ m₂, Ends (.release place.id .write :: m.stack) m₁.step m₂ → m₂.HandsOn m.stack)

theorem handsOn_of_release {mode : Mode} {base : List Frame}
    (stack : m.stack = .release id mode :: base) (hc : m.control.isOutcome = true) :
    m.HandsOn base := by
  have hstep := step_release stack hc
  exact ⟨by rw [hstep], by rw [hstep], by rw [account, hstep]; exact Session.account_release ..⟩

theorem handsOn_of_storing {k : Key} {base : List Frame} {f : Fault}
    (stack : m.stack = .storing id k :: base) (control : m.control = .raise f) :
    m.HandsOn base := by
  have hstep : m.step = ⟨.raise f, base, m.session⟩ := by
    rw [step, control, stack]
    rfl
  exact ⟨by rw [hstep, control], by rw [hstep], by rw [account, hstep]; rfl⟩

/-- At the end of a computation a stable cache gives a value and counts a miss, or raises a fault
and counts nothing. -/
theorem Reachable.computing_ends (hm : Reachable m) {shown : Spelled} {k : Key}
    {base : List Frame} (stack : m.stack = .computing id shown k :: base)
    (hc : m.control.isOutcome = true) :
    m.step.stack = base ∧
      ((∃ f, m.step.control = .raise f ∧ m.step.account = m.account) ∨
        ∃ v, m.step.control = .give v ∧
          m.step.account = Function.update m.account id ((m.account id).store k v)) := by
  obtain ⟨outcome, control⟩ := eq_ofOutcome hc
  obtain ⟨-, c, found⟩ := hm.framed.hosted (stack ▸ List.mem_cons_self)
  have found' : m.session.resources[id]? = some (.stable c) := found
  obtain ⟨hcontrol, hstack, hshared⟩ := step_computing control stack found'
  refine ⟨hstack, ?_⟩
  rw [hcontrol, account, account, hshared]
  rcases StableCache.account_finish (hm.get?_of_computing stack found') shown outcome with
    ⟨f, houtcome, haccount⟩ | ⟨v, -, houtcome, haccount⟩
  · left
    rw [houtcome]
    exact ⟨f, rfl, Shared.account_set_of_eq found haccount⟩
  · right
    rw [houtcome, Shared.account_set found, haccount, Shared.account_of_found found]
    exact ⟨v, rfl, rfl⟩

/-- A value cache stores what was computed and counts a miss, before the copy is made. -/
theorem Reachable.storing_ends (hm : Reachable m) {k : Key} {base : List Frame} {v : Value}
    (stack : m.stack = .storing id k :: base) (control : m.control = .give v) :
    m.step.control = .eval (.copy v) ∧ m.step.stack = base ∧
      m.step.account = Function.update m.account id ((m.account id).store k v) := by
  obtain ⟨c, found⟩ := hm.framed.hosted (stack ▸ List.mem_cons_self)
  have hstep : m.step = ⟨.eval (.copy v), base, m.session.setValue id (c.deposit k v)⟩ := by
    rw [step, control, stack]
    show Machine.deposit id k v base m.session = _
    rw [Machine.deposit, show m.session.resources[id]? = some (.value c) from found]
  refine ⟨by rw [hstep], by rw [hstep], ?_⟩
  rw [account, account, hstep, Session.shared_setValue, Shared.account_set found,
    Shared.account_of_found found]
  rfl

theorem Reachable.countsOnce (hm : Reachable m) {place : Place} {key : Value}
    {compute : Value → Program} (control : m.control = .eval (.get place key compute)) :
    m.CountsOnce place key compute := by
  have hm' : Reachable m.step := hm.move (.step (outcome?_eq_none_of_eval control))
  by_cases hstable : ∃ c, m.session.resources[place.id]? = some (.stable c)
  · obtain ⟨c, found⟩ := hstable
    rcases step_get_cases control found with
      ⟨f, hraise, hstack, hshared⟩ | ⟨k, v, -, -, hgive, hstack, hshared⟩ |
      ⟨shown, k, hkey, -, -, -, hcall, hstack, hshared⟩
    · exact .refused f hraise hstack (congrArg Shared.account hshared)
    · refine .hitStable c v found hgive hstack ?_
      rw [account, hshared, Shared.account_set (c := m.session.shared) found, account,
        Shared.account_of_found (c := m.session.shared) found]
      rfl
    · have haccount : m.step.account = m.account := by
        rw [account, hshared]
        exact Shared.account_set_of_eq (c := m.session.shared) found rfl
      refine .missStable c _ found hcall hstack haccount ?_
      intro m₁ hends
      have hm₁ : Reachable m₁ := hm'.leads (hends.leads ⟨[], hstack.symm⟩)
      obtain ⟨hstack₁, hresult⟩ := hm₁.computing_ends hends.stack_eq hends.isOutcome
      refine ⟨hstack₁, hresult.imp_right ?_⟩
      rintro ⟨v, hgive, hstored⟩
      exact ⟨k, v, hkey, hgive, hstored⟩
  · by_cases hvalue : ∃ c, m.session.resources[place.id]? = some (.value c)
    · obtain ⟨c, found⟩ := hvalue
      rcases step_getValue_cases control found with
        ⟨-, f, hstep⟩ | ⟨k, v, -, -, -, hcopy, hstack, hshared⟩ |
        ⟨k, hkey, -, -, hcall, hstack, hshared⟩
      · exact .refused f (by rw [hstep]; rfl) (by rw [hstep]; rfl)
          (by rw [hstep]; exact account_refuse ..)
      · refine .hitValue c v found hcopy hstack ?_ ?_
        · rw [account, hshared, Shared.account_set (c := m.session.shared) found, account,
            Shared.account_of_found (c := m.session.shared) found]
          rfl
        · exact fun m₁ hends => handsOn_of_release hends.stack_eq hends.isOutcome
      · have haccount : m.step.account = m.account := by
          rw [account, hshared]
          exact Shared.account_set_of_eq (c := m.session.shared) found rfl
        refine .missValue c k found hcall hkey hstack haccount ?_ ?_
        · intro m₁ f hends hraise
          have hhands := handsOn_of_storing hends.stack_eq hraise
          refine ⟨hhands, handsOn_of_release hhands.2.1 ?_⟩
          rw [hhands.1, hraise]
          rfl
        · intro m₁ v hends hgive
          have hm₁ : Reachable m₁ := hm'.leads (hends.leads ⟨[], hstack.symm⟩)
          obtain ⟨hcopy, hstack₁, hstored⟩ := hm₁.storing_ends hends.stack_eq hgive
          exact ⟨hcopy, hstack₁, hstored,
            fun m₂ hends₂ => handsOn_of_release hends₂.stack_eq hends₂.isOutcome⟩
    · have hstep := step_get_of_other control (fun c found => hstable ⟨c, found⟩)
        fun c found => hvalue ⟨c, found⟩
      exact .refused _ (by rw [hstep]; rfl) (by rw [hstep]; rfl)
        (by rw [hstep]; exact account_refuse ..)

/-! ### Whole sessions -/

/-- The moves that lead from a machine to another one, in order. -/
inductive History (m : Machine) : List (Machine × Machine) → Machine → Prop where
  | here : History m [] m
  | move {moves : List (Machine × Machine)} {n n' : Machine} (h : History m moves n)
    (hmove : Move n n') : History m (moves ++ [(n, n')]) n'

theorem History.leads {moves : List (Machine × Machine)} (h : History m moves m') :
    Leads m m' := by
  induction h with
  | here => exact .refl
  | move _ hmove ih => exact ih.tail hmove

theorem Leads.exists_history (h : Leads m m') : ∃ moves, History m moves m' := by
  induction h with
  | refl => exact ⟨[], .here⟩
  | tail _ hmove ih =>
    obtain ⟨moves, hmoves⟩ := ih
    exact ⟨_, hmoves.move hmove⟩

open scoped Classical in
/-- How many of some moves are of a kind. -/
noncomputable def times (kind : Machine → Machine → Prop) (moves : List (Machine × Machine)) :
    Nat :=
  moves.countP fun e => kind e.1 e.2

section

variable {kind : Machine → Machine → Prop} {moves : List (Machine × Machine)} {n n' : Machine}

theorem times_append_of_pos (h : kind n n') :
    times kind (moves ++ [(n, n')]) = times kind moves + 1 := by
  simp [times, List.countP_append, h]

theorem times_append_of_neg (h : ¬kind n n') :
    times kind (moves ++ [(n, n')]) = times kind moves := by
  simp [times, List.countP_append, h]

end

/-- The hits of a cache are the requests that found their key. -/
theorem hits_eq_times (hm : Reachable m) {moves : List (Machine × Machine)}
    (h : History m moves m') (id : Nat) :
    (m'.account id).hits = (m.account id).hits + times (fun n _ => n.Finds id) moves := by
  induction h with
  | here => rfl
  | move hmoves hmove ih =>
    rcases (hm.leads hmoves.leads).hits_move hmove id with ⟨hfinds, hhits⟩ | ⟨hfinds, hhits⟩
    · rw [hhits, ih, times_append_of_pos hfinds, Nat.add_assoc]
    · rw [hhits, ih, times_append_of_neg hfinds]

/-- A cache logs as many misses as it starts computations. -/
theorem times_logsMiss {moves : List (Machine × Machine)} (h : History m moves m') (id : Nat) :
    times (LogsMiss · · id) moves = times (fun n n' => ∃ k, Starts n n' ⟨id, k⟩) moves := by
  induction h with
  | here => rfl
  | @move moves n n' _ hmove ih =>
    by_cases hstarts : ∃ k, Starts n n' ⟨id, k⟩
    · have hlogs : LogsMiss n n' id := hmove.logsMiss_iff.mpr hstarts
      rw [times_append_of_pos hlogs, times_append_of_pos hstarts, ih]
    · have hlogs : ¬LogsMiss n n' id := fun hlogs => hstarts (hmove.logsMiss_iff.mp hlogs)
      rw [times_append_of_neg hlogs, times_append_of_neg hstarts, ih]

/-! ### Main statement -/

/-- **Counters account for every lookup.**  Whatever has happened in a session, a cache has counted
as many misses as it has stored keys, as many hits as there were requests that found their key, and
it has logged as many misses as it has started computations; nothing else but a program itself logs
an event of that name.  A move counts a hit of the cache that is asked, or a miss of the cache whose
computation has returned, or nothing; what is evaluated counts nothing unless it is a request; and a
request counts once on its own account. -/
theorem lookups_accounted {audience : Audience} {environment : List (String × Option String)}
    {p : Program} {moves : List (Machine × Machine)}
    (h : History (load p (.start audience environment)) moves m) :
    (∀ id, (m.account id).misses = (m.account id).slots.size ∧
      (m.account id).slots.keys.Nodup ∧
      (m.account id).hits = times (fun n _ => n.Finds id) moves ∧
      times (LogsMiss · · id) moves = times (fun n n' => ∃ k, Starts n n' ⟨id, k⟩) moves) ∧
    (∀ m', Move m m' →
      (m'.account = m.account ∨
        (∃ place key compute, m.control = .eval (.get place key compute) ∧ m.Finds place.id ∧
          m'.account = Function.update m.account place.id (m.account place.id).hit) ∨
        ∃ x v, m.Returns x v ∧ m'.account =
          Function.update m.account x.cache ((m.account x.cache).store x.key v)) ∧
      (Session.Quiet m.session m'.session ∨ (∃ id, LogsMiss m m' id) ∨
        ∃ e, m.control = .eval (.perform (.settings (.log e))))) ∧
    (∀ q, m.control = .eval q → (∀ place key compute, q ≠ .get place key compute) →
      m.step.account = m.account) ∧
    ∀ place key compute, m.control = .eval (.get place key compute) →
      m.CountsOnce place key compute := by
  have hstart : Reachable (load p (.start audience environment)) := .start ..
  have hm : Reachable m := hstart.leads h.leads
  refine ⟨?_, ?_, fun q control hq => hm.account_step_of_eval control hq,
    fun place key compute control => hm.countsOnce control⟩
  · intro id
    have hhits := hits_eq_times hstart h id
    have hnone : ((load p (.start audience environment)).account id).hits = 0 := rfl
    rw [hnone, Nat.zero_add] at hhits
    exact ⟨(hm.balanced id).1, (hm.balanced id).2, hhits, times_logsMiss h id⟩
  · intro m' hmove
    refine ⟨?_, ?_⟩
    · rcases hm.account_cases hmove.change with
        haccount | ⟨place, key, compute, control, haccount⟩ | ⟨x, v, hreturns, -, haccount⟩
      · exact .inl haccount
      · obtain rfl := hmove.eq_step_of_eval control
        rcases account_get control with ⟨hfinds, -⟩ | ⟨-, hsame⟩
        · exact .inr (.inl ⟨place, key, compute, control, hfinds, haccount⟩)
        · exact .inl hsame
      · exact .inr (.inr ⟨x, v, hreturns, haccount⟩)
    · cases hmove with
      | step => exact step_journal m
      | next => exact .inl (.of_eq rfl)

/-- Asks a new value cache for `k` twice, and looks at the stored value in between. -/
def askedTwice : Program :=
  .andThen (.perform (.create (.value "c" none))) <|
    .reach (.named "c") fun place =>
      .andThen (.get place (.text "k") fun _ => .done (.int 1)) <|
        .andThen (.peek place (.text "k")) (.get place (.text "k") fun _ => .done (.int 2))

/-- The machine that has asked twice. -/
def havingAskedTwice : Machine := (load askedTwice (.start .events [])).run 30

theorem lookups_accounted_askedTwice :
    ∃ moves, History (load askedTwice (.start .events [])) moves havingAskedTwice ∧
      havingAskedTwice.outcome?.isSome = true ∧
      times (fun n _ => n.Finds 0) moves = 1 ∧ (havingAskedTwice.account 0).misses = 1 ∧
      (havingAskedTwice.account 0).slots.size = 1 ∧
      times (LogsMiss · · 0) moves = times (fun n n' => ∃ k, Starts n n' ⟨0, k⟩) moves := by
  obtain ⟨moves, h⟩ : ∃ moves, History (load askedTwice (.start .events [])) moves
      havingAskedTwice := Leads.exists_history (leads_run 30 _)
  obtain ⟨haccount, -⟩ := lookups_accounted h
  obtain ⟨hmisses, -, hhits, hlogs⟩ := haccount 0
  have hone : (havingAskedTwice.account 0).misses = 1 := rfl
  have hhit : (havingAskedTwice.account 0).hits = 1 := rfl
  exact ⟨moves, h, rfl, hhits.symm.trans hhit, hone, hmisses.symm.trans hone, hlogs⟩

end Machine

end CheckedMemo
