import CheckedMemo.Proofs.Requests

/-!
# What guards say about views

A guard counts the views that are held, so it can be read off the guard which views are active
(`Reachable.faithful`), and a write view is never active together with another one
(`Reachable.exclusive`).  `Demands` lists the programs that request a view, by themselves or on
behalf of a cache.  A request that other views are in the way of is refused and changes nothing
(`Demands.begin_of_obstacle`); any other is not refused for the sake of views
(`Demands.not_isConflict_of_free`).

The fault of a refused request shows its key.  A key that cannot be shown, an integer of too many
digits for one, is reported instead of the conflict (`Request.kind_fault_conflict`,
`Machine.conflict_lost_on_long_key`).
-/

namespace CheckedMemo

/-! ### Write views are alone -/

/-- Whether no read view is active beside a write view. -/
def Guard.Exclusive (g : Guard) : Prop := g.writing = true → g.readers = 0

theorem Guard.Exclusive.acquire {g : Guard} {mode : Mode} (h : g.obstacle? mode = none) :
    (g.acquire mode).Exclusive := by
  cases mode with
  | read =>
    have hwriting : g.writing = false := (obstacle?_read_eq_none_iff g).mp h
    intro hacquired
    cases hwriting.symm.trans hacquired
  | write =>
    have hfree : g.isBorrowed = false := (obstacle?_write_eq_none_iff g).mp h
    intro _
    exact count_eq_zero_of_free hfree .read

theorem Guard.Exclusive.release {g : Guard} (h : g.Exclusive) (mode : Mode) :
    (g.release mode).Exclusive := by
  cases mode with
  | read =>
    intro hwriting
    show g.readers - 1 = 0
    rw [h hwriting]
  | write => exact fun hwriting => Bool.noConfusion hwriting

namespace Shared

variable {c : Shared} {id : Nat} {r r' : Resource}

/-- Whether no read view is active beside a write view, of any cell or cache. -/
def Exclusive (c : Shared) : Prop :=
  ∀ (id : Nat) (r : Resource), c.resources[id]? = some r → r.guard.Exclusive

theorem Exclusive.of_resources {c' : Shared} (h : c.Exclusive) (hc : c'.resources = c.resources) :
    c'.Exclusive := by
  intro id r found
  exact h id r (hc ▸ found)

theorem Exclusive.set (h : c.Exclusive) (found : c.resources[id]? = some r)
    (hr : r'.guard.Exclusive) : (c.set id r').Exclusive := by
  intro i x hx
  rw [getElem?_resources_set found] at hx
  by_cases hi : i = id
  · rw [if_pos hi] at hx
    exact Option.some.inj hx ▸ hr
  · rw [if_neg hi] at hx
    exact h i x hx

theorem Exclusive.push (h : c.Exclusive) (hr : r.New) : (c.push r).Exclusive := by
  intro i x hx
  rw [getElem?_resources_push] at hx
  by_cases hi : i = c.resources.size
  · rw [if_pos hi] at hx
    obtain rfl := Option.some.inj hx
    -- a new guard counts no view at all
    cases hr <;> exact fun _ => rfl
  · rw [if_neg hi] at hx
    exact h i x hx

theorem Exclusive.release {s : Session} (h : s.shared.Exclusive) (id : Nat) (mode : Mode) :
    (s.release id mode).shared.Exclusive := by
  unfold Session.release
  split
  · rename_i r found
    refine h.set (c := s.shared) found ?_
    rw [Resource.guard_mapGuard]
    exact (h id r found).release mode
  · exact h

theorem Exclusive.dropNamed {s : Session} (h : s.shared.Exclusive) (name : String) :
    (s.dropNamed name).shared.Exclusive := by
  unfold Session.dropNamed
  split
  · exact h
  · rename_i v hv
    exact (h.release v.resource v.mode).of_resources rfl

end Shared

namespace Machine

variable {m m' : Machine}

theorem Change.exclusive (hm : m.session.shared.Exclusive) (h : Change m m') :
    m'.session.shared.Exclusive := by
  have acquired {mode : Mode} {r : Resource} (free : r.guard.obstacle? mode = none) :
      (r.mapGuard (·.acquire mode)).guard.Exclusive := by
    rw [Resource.guard_mapGuard]
    exact Guard.Exclusive.acquire free
  cases h with
  | idle shared | abandon _ _ _ _ shared | stray _ shared => exact hm.of_resources (by rw [shared])
  | depart thread shared | comeBack thread shared => exact hm.of_resources (by rw [shared])
  | make r new shared => exact shared ▸ hm.push new
  | enter id mode r found free shared => exact shared ▸ hm.set found (acquired free)
  | leave id mode shared => exact shared ▸ hm.release id mode
  | openNamed name id mode r found free shared =>
    have hset : (m.session.setResource id (r.mapGuard (·.acquire mode))).shared.Exclusive :=
      hm.set (c := m.session.shared) found (acquired free)
    rw [shared]
    exact (hset.dropNamed name).of_resources rfl
  | closeNamed name shared => exact shared ▸ hm.dropNamed name
  | hitStable id c _ _ found _ shared | missStable id c _ _ found _ _ _ _ _ _ shared
  | deposit id c _ _ _ found shared =>
    have hguard : c.guard.Exclusive := hm id _ found
    exact shared ▸ hm.set found hguard
  | finish id key k c outcome _ found shared =>
    refine shared ▸ hm.set found ?_
    show (c.finish key k outcome).cache.guard.Exclusive
    rw [StableCache.guard_finish]
    exact hm id _ found
  | hitValue id c _ _ found free _ shared | missValue id c _ found free _ _ shared =>
    have hfree : c.guard.obstacle? .write = none := Guard.obstacle?_of_not_isBorrowed free .write
    exact shared ▸ hm.set found (Guard.Exclusive.acquire hfree)

theorem Reachable.exclusive (hm : Reachable m) : m.session.shared.Exclusive := by
  refine hm.induction ?_ fun m m' _ hm hchange => hchange.exclusive hm
  intro m _ hshared id r found
  rw [hshared] at found
  cases found

end Machine

/-! ### Requests for views -/

namespace Request

variable (r : Request)

/-- A request that cannot be shown has no fault but that. -/
theorem fault_cases (cause : Spelled → Fault) :
    (∃ shown : Spelled, shown.value = r.key ∧ r.text?.get = some shown.text ∧
      r.fault cause = cause shown) ∨ r.text?.get = none ∧ r.fault cause = .unspellable := by
  unfold fault spelled
  cases h : r.text?.get with
  | none => exact .inr ⟨rfl, rfl⟩
  | some text => exact .inl ⟨⟨r.key, text⟩, rfl, rfl, rfl⟩

/-- A refused request raises a fault of the borrowing kind exactly if its key can be shown. -/
theorem kind_fault_conflict (label : Label) (mode : Mode) (active : Active) :
    (r.fault (.conflict label mode active)).kind =
      if r.text?.get.isSome then .borrow else .badValue := by
  rcases r.fault_cases (.conflict label mode active) with
    ⟨shown, -, htext, hfault⟩ | ⟨htext, hfault⟩
  · rw [hfault, htext]
    rfl
  · rw [hfault, htext]
    rfl

end Request

/-- Whether a fault reports that a request for a view in a mode was refused. -/
def Fault.IsConflict (mode : Mode) : Fault → Prop
  | .conflict _ m _ _ => m = mode
  | _ => False

theorem Request.not_isConflict_fault {cause : Spelled → Fault} {mode : Mode}
    (h : ∀ shown, ¬(cause shown).IsConflict mode) (r : Request) :
    ¬(r.fault cause).IsConflict mode := by
  rcases r.fault_cases cause with ⟨shown, -, -, hfault⟩ | ⟨-, hfault⟩
  · rw [hfault]
    exact h shown
  · rw [hfault]
    exact id

/-- Whether a computation that may fail does not fail with a conflict over a view in a mode. -/
def NoConflict {α : Type} (mode : Mode) (x : Except Fault α) : Prop :=
  ∀ f, x = .error f → ¬f.IsConflict mode

namespace NoConflict

variable {α β : Type} {mode : Mode}

theorem ok (a : α) : NoConflict mode (.ok a) := fun _ h => nomatch h

theorem error {f : Fault} (h : ¬f.IsConflict mode) : NoConflict (α := α) mode (.error f) := by
  rintro g ⟨⟩
  exact h

theorem bind {x : Except Fault α} {f : α → Except Fault β} (hx : NoConflict mode x)
    (hf : ∀ a, x = .ok a → NoConflict mode (f a)) : NoConflict mode (x >>= f) := by
  cases x with
  | error g => exact error (hx g rfl)
  | ok a => exact hf a rfl

theorem index (r : Request) : NoConflict mode r.index := by
  unfold Request.index
  cases r.key.key with
  | ok k => exact ok k
  | error u => exact error id

theorem spelled (r : Request) : NoConflict mode r.spelled := by
  unfold Request.spelled
  cases r.text?.get with
  | some text => exact ok _
  | none => exact error id

theorem allow_of_free {g : Guard} (h : g.obstacle? mode = none) (r : Request) :
    NoConflict mode (g.allow mode r) := by
  rw [Guard.allow_of_free h]
  exact ok ()

end NoConflict

theorem NoConflict.allow_of_ne {mode mode' : Mode} (h : mode' ≠ mode) (g : Guard) (r : Request) :
    NoConflict mode (g.allow mode' r) := by
  unfold Guard.allow
  cases g.obstacle? mode' with
  | none => exact .ok ()
  | some active =>
    refine .error (r.not_isConflict_fault fun _ => ?_)
    exact h

namespace StableCache

variable {c : StableCache} {r : Request} {active : Active} {mode : Mode}

theorem find_of_obstacle (h : c.guard.obstacle? .read = some active) :
    c.find r = .error (r.fault (.conflict c.guard.label .read active)) := by
  unfold find
  rw [Guard.allow_of_obstacle h]
  rfl

theorem contains_of_obstacle (h : c.guard.obstacle? .read = some active) :
    c.contains r = .error (r.fault (.conflict c.guard.label .read active)) := by
  unfold contains
  rw [find_of_obstacle h]
  rfl

theorem start_of_obstacle {thread : Thread} (h : c.guard.obstacle? .read = some active) :
    c.start thread r = .error (r.fault (.conflict c.guard.label .read active)) := by
  unfold start
  rw [Guard.allow_of_obstacle h]
  rfl

/-- A key that has no value yet needs a write view for its mark. -/
theorem start_of_obstacle_write {thread : Thread} {k : Key} (free : c.guard.obstacle? .read = none)
    (hk : r.index = .ok k) (absent : c.slots.get? k = none)
    (h : c.guard.obstacle? .write = some active) :
    c.start thread r = .error (r.fault (.conflict c.guard.label .write active)) := by
  unfold start reserve
  rw [Guard.allow_of_free free, hk, ok_bind, ok_bind, absent, Guard.allow_of_obstacle h]
  rfl

theorem noConflict_find (h : c.guard.obstacle? .read = none) : NoConflict .read (c.find r) := by
  refine (NoConflict.allow_of_free h r).bind fun _ _ => ?_
  exact (NoConflict.index r).bind fun _ _ => .ok _

theorem noConflict_contains (h : c.guard.obstacle? .read = none) :
    NoConflict .read (c.contains r) :=
  (noConflict_find h).bind fun _ _ => .ok _

theorem noConflict_peek (h : c.guard.obstacle? .read = none) : NoConflict .read (c.peek r) := by
  refine (noConflict_find h).bind fun found _ => ?_
  cases found with
  | some v => exact .ok v
  | none => exact .error (r.not_isConflict_fault fun _ => id)

theorem noConflict_retrieve {hint : Option String} (h : c.guard.obstacle? .read = none) :
    NoConflict .read (c.retrieve hint r) := by
  refine (noConflict_contains h).bind fun found _ => ?_
  split
  · exact noConflict_peek h
  · exact .error (r.not_isConflict_fault fun _ => id)

theorem noConflict_reserve {thread : Thread} {k : Key}
    (h : NoConflict mode (c.guard.allow .write r)) : NoConflict mode (c.reserve thread r k) := by
  refine h.bind fun _ _ => ?_
  cases c.pending.get? k with
  | none => exact .ok _
  | some owner =>
    refine .error (r.not_isConflict_fault fun shown => ?_)
    split <;> exact id

/-- A request for a value asks for a read view first, and then maybe for a write view. -/
theorem noConflict_start {thread : Thread} (hread : NoConflict mode (c.guard.allow .read r))
    (hwrite : NoConflict mode (c.guard.allow .write r)) : NoConflict mode (c.start thread r) := by
  refine hread.bind fun _ _ => (NoConflict.index r).bind fun k _ => ?_
  cases c.slots.get? k with
  | some v => exact .ok _
  | none =>
    refine (noConflict_reserve hwrite).bind fun _ _ => ?_
    exact (NoConflict.spelled r).bind fun _ _ => .ok _

end StableCache

namespace ValueCache

variable {c : ValueCache} {r : Request} {active : Active}

theorem start_of_obstacle (h : c.guard.obstacle? .write = some active) :
    c.start r = .error (r.fault (.conflict c.guard.label .write active)) := by
  unfold start
  rw [Guard.allow_of_obstacle h]
  rfl

theorem contains_of_obstacle (h : c.guard.obstacle? .read = some active) :
    c.contains r = .error (r.fault (.conflict c.guard.label .read active)) := by
  unfold contains
  rw [Guard.allow_of_obstacle h]
  rfl

theorem openStored_of_obstacle (h : c.guard.obstacle? .read = some active) :
    c.openStored r = .error (r.fault (.conflict c.guard.label .read active)) := by
  unfold openStored
  rw [Guard.allow_of_obstacle h]
  rfl

theorem noConflict_start (h : c.guard.obstacle? .write = none) : NoConflict .write (c.start r) := by
  refine (NoConflict.allow_of_free h r).bind fun _ _ => (NoConflict.index r).bind fun k _ => ?_
  cases c.slots.get? k with
  | some v => exact .ok _
  | none => exact (NoConflict.spelled r).bind fun _ _ => .ok _

theorem noConflict_contains (h : c.guard.obstacle? .read = none) :
    NoConflict .read (c.contains r) := by
  refine (NoConflict.allow_of_free h r).bind fun _ _ => ?_
  exact (NoConflict.index r).bind fun _ _ => .ok _

theorem noConflict_openStored (h : c.guard.obstacle? .read = none) :
    NoConflict .read (c.openStored r) := by
  refine (NoConflict.allow_of_free h r).bind fun _ _ => (NoConflict.index r).bind fun k _ => ?_
  cases c.slots.get? k with
  | some v => exact .ok _
  | none => exact .error (r.not_isConflict_fault fun _ => id)

end ValueCache

/-- Whether a resource is a cache. -/
def Resource.isCache : Resource → Bool
  | .cell .. => false
  | .stable _ | .value _ => true

/-- What a cache refuses while a write view of it is active, whatever is asked. -/
theorem Resource.inspect_of_obstacle {r : Resource} (hr : r.isCache = true) {active : Active}
    (h : r.guard.obstacle? .read = some active) (q : Request) :
    r.contains q = .error (q.fault (.conflict r.guard.label .read active)) ∧
      r.size q = .error (q.fault (.conflict r.guard.label .read active)) := by
  cases r with
  | cell => cases hr
  | stable c =>
    refine ⟨StableCache.contains_of_obstacle h, ?_⟩
    have hguard : c.guard.obstacle? .read = some active := h
    show c.size q = _
    rw [StableCache.size, Guard.allow_of_obstacle hguard]
    rfl
  | value c =>
    refine ⟨ValueCache.contains_of_obstacle h, ?_⟩
    have hguard : c.guard.obstacle? .read = some active := h
    show c.size q = _
    rw [ValueCache.size, Guard.allow_of_obstacle hguard]
    rfl

theorem Resource.noConflict_inspect {r : Resource} (h : r.guard.obstacle? .read = none)
    (q : Request) : NoConflict .read (r.contains q) ∧ NoConflict .read (r.size q) := by
  have allowed : NoConflict .read (r.guard.allow .read q) := .allow_of_free h q
  cases r with
  | cell => exact ⟨.error id, .error id⟩
  | stable c => exact ⟨StableCache.noConflict_contains h, allowed.bind fun _ _ => .ok _⟩
  | value c => exact ⟨ValueCache.noConflict_contains h, allowed.bind fun _ _ => .ok _⟩

namespace Machine

/-- The views that a program requests in its first step: a view of its own, or one that a cache
needs for what it is asked.  A stable cache that has no value for a key asks for a read view first
and then for a write view. -/
inductive Demands (s : Session) (id : Nat) : Mode → Value → Program → Prop where
  | view {place : Place} (hplace : place.id = id) (mode : Mode) (key : Value)
    (body : Value → Program) : Demands s id mode key (.view place mode key body)
  | openAs {place : Place} (hplace : place.id = id) (name : String) (mode : Mode) (key : Value) :
    Demands s id mode key (.perform (.view (.openAs name place mode key)))
  | contains {place : Place} (hplace : place.id = id) {r : Resource}
    (found : s.resources[id]? = some r) (cache : r.isCache = true) (key : Value) :
    Demands s id .read key (.contains place key)
  | size {place : Place} (hplace : place.id = id) {r : Resource}
    (found : s.resources[id]? = some r) (cache : r.isCache = true) :
    Demands s id .read .null (.perform (.inspect (.size place)))
  | peek {place : Place} (hplace : place.id = id) {r : Resource}
    (found : s.resources[id]? = some r) (cache : r.isCache = true) (key : Value) :
    Demands s id .read key (.peek place key)
  | retrieve {place : Place} (hplace : place.id = id) {c : StableCache}
    (found : s.resources[id]? = some (.stable c)) (key : Value) :
    Demands s id .read key (.retrieve place key)
  | look {place : Place} (hplace : place.id = id) {c : StableCache}
    (found : s.resources[id]? = some (.stable c)) (key : Value) (compute : Value → Program) :
    Demands s id .read key (.get place key compute)
  | mark {place : Place} (hplace : place.id = id) {c : StableCache}
    (found : s.resources[id]? = some (.stable c)) (free : c.guard.obstacle? .read = none)
    {key : Value} {k : Key} (hkey : key.key = .ok k) (absent : c.slots.get? k = none)
    (compute : Value → Program) : Demands s id .write key (.get place key compute)
  | hold {place : Place} (hplace : place.id = id) {c : ValueCache}
    (found : s.resources[id]? = some (.value c)) (key : Value) (compute : Value → Program) :
    Demands s id .write key (.get place key compute)

namespace Demands

variable {s : Session} {id : Nat} {mode : Mode} {key : Value} {p : Program} {r : Resource}

theorem resource_eq {place : Place} (hplace : place.id = id)
    (found : s.resources[id]? = some r) : s.resource place.id = .ok r := by
  unfold Session.resource
  rw [hplace, found]

/-- A request that other views are in the way of is refused, and changes nothing. -/
theorem begin_of_obstacle (h : Demands s id mode key p) (found : s.resources[id]? = some r)
    {active : Active} (hr : r.guard.obstacle? mode = some active) (stack : List Frame) :
    begin p stack s =
      refuse ((s.request key).fault (.conflict r.guard.label mode active)) stack s := by
  cases h with
  | view hplace mode key body =>
    rw [begin, openView, Session.openView, hplace, found]
    dsimp only
    rw [Guard.allow_of_obstacle hr]
    rfl
  | openAs hplace name mode key =>
    rw [begin, Session.perform, Session.view, Session.openNamed, Session.openView, hplace, found]
    dsimp only
    rw [Guard.allow_of_obstacle hr]
    rfl
  | contains hplace found' cache key =>
    obtain rfl := Option.some.inj (found.symm.trans found')
    rw [Program.contains, begin, Session.perform, Session.inspect, resource_eq hplace found,
      ok_bind, (Resource.inspect_of_obstacle cache hr _).1]
    rfl
  | size hplace found' cache =>
    obtain rfl := Option.some.inj (found.symm.trans found')
    rw [begin, Session.perform, Session.inspect, resource_eq hplace found, ok_bind,
      (Resource.inspect_of_obstacle cache hr _).2]
    rfl
  | peek hplace found' cache key =>
    obtain rfl := Option.some.inj (found.symm.trans found')
    rw [begin, Machine.peek, hplace, found]
    cases r with
    | cell => cases cache
    | stable c =>
      dsimp only
      rw [StableCache.peek, StableCache.find_of_obstacle hr]
      rfl
    | value c =>
      dsimp only
      rw [ValueCache.openStored_of_obstacle hr]
      rfl
  | retrieve hplace found' key =>
    obtain rfl := Option.some.inj (found.symm.trans found')
    rw [Program.retrieve, begin, Session.perform, Session.inspect, resource_eq hplace found,
      ok_bind, Resource.retrieve, StableCache.retrieve, StableCache.contains_of_obstacle hr]
    rfl
  | look hplace found' key compute =>
    obtain rfl := Option.some.inj (found.symm.trans found')
    rw [begin, Machine.get, hplace, found]
    dsimp only
    rw [getStable, StableCache.start_of_obstacle hr]
    rfl
  | mark hplace found' free hkey absent compute =>
    obtain rfl := Option.some.inj (found.symm.trans found')
    have hindex : (s.request key).index = .ok _ := Request.index_eq_ok_iff.mpr hkey
    rw [begin, Machine.get, hplace, found]
    dsimp only
    rw [getStable, StableCache.start_of_obstacle_write free hindex absent hr]
    rfl
  | hold hplace found' key compute =>
    obtain rfl := Option.some.inj (found.symm.trans found')
    rw [begin, Machine.get, hplace, found]
    dsimp only
    rw [getValue, ValueCache.start_of_obstacle hr]
    rfl

theorem error_of_reply {stack : List Frame} {reply' : Except Fault Value × Session} {f : Fault}
    (h : (reply stack reply').control = .raise f) : reply'.1 = .error f := by
  obtain ⟨_ | v, t⟩ := reply'
  · cases h
    rfl
  · cases h

theorem error_of_getStable {c : StableCache} {compute : Value → Program} {stack : List Frame}
    {f : Fault} (h : (getStable id c key compute stack s).control = .raise f) :
    c.start s.thread (s.request key) = .error f := by
  unfold getStable at h
  split at h
  · rename_i g hg
    cases h
    exact hg
  · cases h
  · cases h

theorem error_of_getValue {c : ValueCache} {compute : Value → Program} {stack : List Frame}
    {f : Fault} (h : (getValue id c key compute stack s).control = .raise f) :
    c.start (s.request key) = .error f := by
  unfold getValue at h
  split at h
  · rename_i g hg
    cases h
    exact hg
  · cases h
  · cases h

/-- A request that no view is in the way of is not refused for the sake of views. -/
theorem not_isConflict_of_free (h : Demands s id mode key p) (found : s.resources[id]? = some r)
    (hr : r.guard.obstacle? mode = none) {stack : List Frame} {f : Fault}
    (hf : (begin p stack s).control = .raise f) : ¬f.IsConflict mode := by
  cases h with
  | view hplace mode key body =>
    rw [begin, openView, Session.openView, hplace, found] at hf
    dsimp only at hf
    rw [Guard.allow_of_free hr] at hf
    cases hf
  | openAs hplace name mode key =>
    rw [begin, Session.perform, Session.view, Session.openNamed, Session.openView, hplace,
      found] at hf
    dsimp only at hf
    rw [Guard.allow_of_free hr] at hf
    cases hf
  | contains hplace found' cache key =>
    have herror := error_of_reply hf
    rw [Session.perform, Session.inspect, resource_eq hplace found, ok_bind] at herror
    exact (Resource.noConflict_inspect hr _).1.bind (fun _ _ => .ok _) f herror
  | size hplace found' cache =>
    have herror := error_of_reply hf
    rw [Session.perform, Session.inspect, resource_eq hplace found, ok_bind] at herror
    exact (Resource.noConflict_inspect hr _).2.bind (fun _ _ => .ok _) f herror
  | peek hplace found' cache key =>
    rw [begin, Machine.peek, hplace, found] at hf
    cases r with
    | cell =>
      cases hf
      exact fun h => h
    | stable c => exact StableCache.noConflict_peek hr f (error_of_reply hf)
    | value c =>
      dsimp only at hf
      split at hf
      · rename_i g hg
        cases hf
        exact ValueCache.noConflict_openStored hr _ hg
      · cases hf
  | retrieve hplace found' key =>
    obtain rfl := Option.some.inj (found.symm.trans found')
    have herror := error_of_reply hf
    rw [Session.perform, Session.inspect, resource_eq hplace found, ok_bind] at herror
    exact StableCache.noConflict_retrieve hr f herror
  | look hplace found' key compute =>
    obtain rfl := Option.some.inj (found.symm.trans found')
    rw [begin, Machine.get, hplace, found] at hf
    -- the write view that the mark needs may still be refused
    exact StableCache.noConflict_start (.allow_of_free hr _) (.allow_of_ne (by decide) _ _) f
      (error_of_getStable hf)
  | mark hplace found' free hkey absent compute =>
    obtain rfl := Option.some.inj (found.symm.trans found')
    rw [begin, Machine.get, hplace, found] at hf
    exact StableCache.noConflict_start (.allow_of_ne (by decide) _ _) (.allow_of_free hr _) f
      (error_of_getStable hf)
  | hold hplace found' key compute =>
    obtain rfl := Option.some.inj (found.symm.trans found')
    rw [begin, Machine.get, hplace, found] at hf
    exact ValueCache.noConflict_start hr f (error_of_getValue hf)

end Demands

variable {m m' : Machine}

/-- The end of a computation for a stable cache asks for a write view as well. -/
theorem step_computing_of_borrowed {id : Nat} {key : Spelled} {k : Key} {rest : List Frame}
    {c : StableCache} (stack : m.stack = .computing id key k :: rest)
    (outcome : m.control.isOutcome = true) (found : m.session.resources[id]? = some (.stable c))
    (h : c.guard.isBorrowed = true) :
    (∃ active, m.step.control = .raise (.conflict c.guard.label .write active key)) ∧
      m.step.session.shared = m.session.shared := by
  obtain ⟨outcome', houtcome⟩ := eq_ofOutcome outcome
  obtain ⟨hcontrol, -, hshared⟩ := step_computing houtcome stack found
  obtain ⟨active, -, hcache, hresult⟩ := StableCache.finish_of_borrowed h key k outcome'
  rw [hresult] at hcontrol
  rw [hcache, Shared.set_of_found (c := m.session.shared) found] at hshared
  exact ⟨⟨active, hcontrol⟩, hshared⟩

theorem step_computing_of_free {id : Nat} {key : Spelled} {k : Key} {rest : List Frame}
    {c : StableCache} (stack : m.stack = .computing id key k :: rest)
    (outcome : m.control.isOutcome = true) (found : m.session.resources[id]? = some (.stable c))
    (h : c.guard.isBorrowed = false) {f : Fault} (hf : m.step.control = .raise f) :
    m.control = .raise f := by
  obtain ⟨outcome', houtcome⟩ := eq_ofOutcome outcome
  obtain ⟨hcontrol, -, -⟩ := step_computing houtcome stack found
  rw [hcontrol] at hf
  cases outcome' with
  | ok v =>
    rw [StableCache.finish_ok_of_free h] at hf
    cases hf
  | error g =>
    rw [StableCache.finish_error_of_free h] at hf
    exact houtcome.trans hf

/-! ### Releases -/

/-- A view is left on every way out of its body, and whatever the body ended with goes on. -/
theorem step_release {id : Nat} {mode : Mode} {rest : List Frame}
    (stack : m.stack = .release id mode :: rest) (outcome : m.control.isOutcome = true) :
    m.step = ⟨m.control, rest, m.session.release id mode⟩ := by
  obtain ⟨control, stack', s⟩ := m
  obtain rfl : stack' = .release id mode :: rest := stack
  cases control with
  | eval p => cases outcome
  | give v => rfl
  | raise f => rfl

/-- What follows when a named view is closed: the failure that ended its body, if any. -/
def closing : Option Thrown → Control
  | none => .give (.bool true)
  | some t => .raise (.thrown t)

theorem step_close {name : String} {failure : Option Thrown} {v : OpenView}
    (control : m.control = .eval (.perform (.view (.close name failure))))
    (hv : m.session.views.get? name = some v) :
    m.step = ⟨closing failure, m.stack, m.session.dropNamed name⟩ := by
  have hopen : m.session.views.contains name = true := by
    rw [Table.contains, hv]
    rfl
  rw [step, control]
  dsimp only
  rw [begin, Session.perform, Session.view]
  unfold Session.closeNamed
  rw [if_pos hopen]
  cases failure <;> rfl

/-- Whether the views of `m'` are those of `m` without `v`, which is counted and held once less. -/
def Removes (m m' : Machine) (v : OpenView) : Prop :=
  ∀ w, m.session.shared.active w = m'.session.shared.active w + [v].count w ∧
    m.held w = m'.held w + [v].count w

theorem Reachable.removes_release (hm : Reachable m) {id : Nat} {mode : Mode} {rest : List Frame}
    (stack : m.stack = .release id mode :: rest) (outcome : m.control.isOutcome = true) :
    Removes m m.step ⟨id, mode⟩ := by
  intro w
  have hactive := hm.accounted.active_eq w
  have hheld : m.held w = m.step.held w + [⟨id, mode⟩].count w := by
    rw [step_release stack outcome, held, held, stack, Frame.count_views_release]
    dsimp only
    rw [Session.views_release]
    omega
  refine ⟨?_, hheld⟩
  -- what is held is counted, so nothing is cut off below zero
  have hrelease := Shared.active_release m.session id mode w
  rw [step_release stack outcome]
  dsimp only
  omega

theorem Reachable.removes_close (hm : Reachable m) {name : String} {failure : Option Thrown}
    {v : OpenView} (control : m.control = .eval (.perform (.view (.close name failure))))
    (hv : m.session.views.get? name = some v) : Removes m m.step v := by
  intro w
  have hactive := hm.accounted.active_eq w
  have hcount := Table.count_values_erase hm.accounted.distinct hv w
  have hheld : m.held w = m.step.held w + [v].count w := by
    rw [step_close control hv, held, held]
    dsimp only
    rw [Session.views_dropNamed]
    omega
  refine ⟨?_, hheld⟩
  have hdrop := Shared.active_dropNamed m.session name w
  rw [hv, Option.toList_some] at hdrop
  rw [step_close control hv]
  dsimp only
  omega

/-! ### Reading a guard -/

/-- What a guard says about the views of its resource that are held. -/
structure Faithful (m : Machine) (id : Nat) (g : Guard) : Prop where
  readers : g.readers = m.held ⟨id, .read⟩
  writing : g.writing = true ↔ m.held ⟨id, .write⟩ = 1
  single : m.held ⟨id, .write⟩ ≤ 1
  alone : m.held ⟨id, .write⟩ = 1 → m.held ⟨id, .read⟩ = 0

theorem Reachable.faithful (hm : Reachable m) {id : Nat} {r : Resource}
    (found : m.session.resources[id]? = some r) : Faithful m id r.guard := by
  have hread : r.guard.readers = m.held ⟨id, .read⟩ := by
    rw [← hm.accounted.active_eq, Shared.active_of_found (v := ⟨id, .read⟩) found]
    rfl
  have hwrite : r.guard.writing.toNat = m.held ⟨id, .write⟩ := by
    rw [← hm.accounted.active_eq, Shared.active_of_found (v := ⟨id, .write⟩) found]
    rfl
  have halone : r.guard.writing = true → r.guard.readers = 0 := hm.exclusive id r found
  constructor
  · exact hread
  · rw [← hwrite]
    cases r.guard.writing <;> decide
  · rw [← hwrite]
    exact Bool.toNat_le _
  · rw [← hwrite, ← hread]
    intro hone
    cases hw : r.guard.writing with
    | false =>
      rw [hw] at hone
      cases hone
    | true => exact halone hw

/-- Whether a view that is held is in the way of a request: a write view of every request, and any
view of a request to write. -/
def Blocked (m : Machine) (id : Nat) : Mode → Prop
  | .read => 0 < m.held ⟨id, .write⟩
  | .write => 0 < m.held ⟨id, .read⟩ ∨ 0 < m.held ⟨id, .write⟩

theorem Faithful.obstacle?_ne_none_iff {id : Nat} {g : Guard} (h : Faithful m id g) (mode : Mode) :
    g.obstacle? mode ≠ none ↔ m.Blocked id mode := by
  have hread := h.readers
  have hwrite := h.writing
  have hsingle := h.single
  cases mode with
  | read =>
    rw [ne_eq, Guard.obstacle?_read_eq_none_iff, Bool.not_eq_false, hwrite]
    show m.held ⟨id, .write⟩ = 1 ↔ 0 < m.held ⟨id, .write⟩
    omega
  | write =>
    rw [ne_eq, Guard.obstacle?_write_eq_none_iff, Bool.not_eq_false, Guard.isBorrowed,
      Bool.or_eq_true, decide_eq_true_iff, hread, hwrite]
    show _ ↔ 0 < m.held ⟨id, .read⟩ ∨ 0 < m.held ⟨id, .write⟩
    omega

theorem Faithful.isBorrowed_iff {id : Nat} {g : Guard} (h : Faithful m id g) :
    g.isBorrowed = true ↔ ∃ mode, 0 < m.held ⟨id, mode⟩ := by
  have hblocked := h.obstacle?_ne_none_iff .write
  rw [ne_eq, Guard.obstacle?_write_eq_none_iff, Bool.not_eq_false] at hblocked
  rw [hblocked]
  constructor
  · rintro (hread | hwrite)
    · exact ⟨.read, hread⟩
    · exact ⟨.write, hwrite⟩
  · rintro ⟨_ | _, hheld⟩
    · exact .inl hheld
    · exact .inr hheld

theorem held_of_outcome (h : m.outcome?.isSome = true) (v : OpenView) :
    m.held v = m.session.views.values.count v := by
  have hstack : m.stack = [] := ((outcome?_isSome_iff m).mp h).1
  rw [held, hstack]
  exact Nat.zero_add _

end Machine

theorem Table.mem_values_iff {α β : Type} [DecidableEq α] {t : Table α β} (ht : t.keys.Nodup)
    (b : β) : b ∈ t.values ↔ ∃ a, t.get? a = some b := by
  obtain ⟨entries⟩ := t
  induction entries with
  | nil =>
    constructor
    · exact fun h => absurd h List.not_mem_nil
    · rintro ⟨a, ⟨⟩⟩
  | cons e rest ih =>
    obtain ⟨hnot, hrest⟩ := List.nodup_cons.mp ht
    have ih' := ih hrest
    constructor
    · intro hb
      rcases List.mem_cons.mp hb with rfl | hb
      · exact ⟨e.1, by simp [get?, lookup]⟩
      · obtain ⟨a, ha⟩ := ih'.mp hb
        -- the first entry has another key, which is not among the rest
        have hne : e.1 ≠ a := by
          rintro rfl
          exact hnot (mem_keys_of_get? ha)
        exact ⟨a, by simpa [get?, lookup, hne] using ha⟩
    · rintro ⟨a, ha⟩
      by_cases he : e.1 = a
      · have hb : e.2 = b := by simpa [get?, lookup, he] using ha
        exact hb ▸ List.mem_cons_self
      · have ha' : Table.get? ⟨rest⟩ a = some b := by simpa [get?, lookup, he] using ha
        exact List.mem_cons_of_mem _ (ih'.mpr ⟨a, ha'⟩)

namespace Machine

variable {m : Machine}

/-! ### Main statement -/

/-- **A guard tells which views are active.**  It counts the read views that are held, by frames or
under names, its flag is set exactly if one write view is, and then no other view is held.  A
request is refused exactly if a view is in its way, be it made by a program, for what a cache is
asked, or at the end of a computation; a refusal changes nothing, and is a conflict unless the key
cannot be shown.  A view that is left or closed, on any way out and on any thread, is taken off the
account, and no other.  Between programs a resource is borrowed exactly if a view of it is open
under some name. -/
theorem views_accounted (hm : Reachable m) {id : Nat} {r : Resource}
    (found : m.session.resources[id]? = some r) :
    Faithful m id r.guard ∧
    (∀ mode key p, m.control = .eval p → Demands m.session id mode key p →
      (m.Blocked id mode → ∃ f, m.step = refuse f m.stack m.session ∧
        m.step.session.shared = m.session.shared ∧
        f.kind = (if (m.session.memory.text? key).isSome then .borrow else .badValue) ∧
        ((m.session.memory.text? key).isSome = true → f.IsConflict mode)) ∧
      (¬m.Blocked id mode → ∀ f, m.step.control = .raise f → ¬f.IsConflict mode)) ∧
    (∀ key k rest, m.stack = .computing id key k :: rest → m.control.isOutcome = true →
      (m.Blocked id .write → m.step.session.shared = m.session.shared ∧
        ∃ f, m.step.control = .raise f ∧ f.IsConflict .write) ∧
      (¬m.Blocked id .write → ∀ f, m.step.control = .raise f → m.control = .raise f)) ∧
    (∀ mode rest, m.stack = .release id mode :: rest → m.control.isOutcome = true →
      m.step.control = m.control ∧ m.step.stack = rest ∧ Removes m m.step ⟨id, mode⟩) ∧
    (∀ name mode failure, m.control = .eval (.perform (.view (.close name failure))) →
      m.session.views.get? name = some ⟨id, mode⟩ →
      m.step.control = closing failure ∧ m.step.stack = m.stack ∧ Removes m m.step ⟨id, mode⟩) ∧
    (m.outcome?.isSome = true → (r.guard.isBorrowed = true ↔
      ∃ name mode, m.session.views.get? name = some ⟨id, mode⟩)) := by
  have hfaithful : Faithful m id r.guard := hm.faithful found
  refine ⟨hfaithful, ?_, ?_, ?_, ?_, ?_⟩
  · intro mode key p control hdemands
    have hstep : m.step = begin p m.stack m.session := by
      rw [step, control]
    constructor
    · intro hblocked
      obtain ⟨active, hactive⟩ :=
        Option.ne_none_iff_exists'.mp ((hfaithful.obstacle?_ne_none_iff mode).mpr hblocked)
      have hrefused := hdemands.begin_of_obstacle found hactive m.stack
      refine ⟨_, hstep.trans hrefused, ?_, Request.kind_fault_conflict .., ?_⟩
      · rw [hstep, hrefused]
        exact Session.shared_report ..
      · intro htext
        rcases (m.session.request key).fault_cases (.conflict r.guard.label mode active) with
          ⟨shown, -, -, hfault⟩ | ⟨hnone, -⟩
        · rw [hfault]
          rfl
        · rw [show m.session.memory.text? key = none from hnone] at htext
          cases htext
    · intro hfree f hf
      have hnone : r.guard.obstacle? mode = none := by
        by_contra hne
        exact hfree ((hfaithful.obstacle?_ne_none_iff mode).mp hne)
      rw [hstep] at hf
      exact hdemands.not_isConflict_of_free found hnone hf
  · intro key k rest stack outcome
    obtain ⟨-, c, found'⟩ := hm.framed.hosted (stack ▸ List.mem_cons_self)
    obtain rfl := Option.some.inj (found.symm.trans found')
    have hborrowed : c.guard.isBorrowed = true ↔ m.Blocked id .write := by
      rw [← hfaithful.obstacle?_ne_none_iff, ne_eq, Guard.obstacle?_write_eq_none_iff,
        Bool.not_eq_false]
      rfl
    constructor
    · intro hblocked
      obtain ⟨⟨active, hraise⟩, hshared⟩ :=
        step_computing_of_borrowed stack outcome found (hborrowed.mpr hblocked)
      exact ⟨hshared, _, hraise, rfl⟩
    · intro hfree f hf
      rw [← hborrowed, Bool.not_eq_true] at hfree
      exact step_computing_of_free stack outcome found hfree hf
  · intro mode rest stack outcome
    refine ⟨?_, ?_, hm.removes_release stack outcome⟩ <;> rw [step_release stack outcome]
  · intro name mode failure control hv
    refine ⟨?_, ?_, hm.removes_close control hv⟩ <;> rw [step_close control hv]
  · intro houtcome
    rw [hfaithful.isBorrowed_iff]
    constructor
    · rintro ⟨mode, hheld⟩
      rw [held_of_outcome houtcome, List.count_pos_iff,
        Table.mem_values_iff hm.accounted.distinct] at hheld
      obtain ⟨name, hname⟩ := hheld
      exact ⟨name, mode, hname⟩
    · rintro ⟨name, mode, hname⟩
      refine ⟨mode, ?_⟩
      rw [held_of_outcome houtcome, List.count_pos_iff,
        Table.mem_values_iff hm.accounted.distinct]
      exact ⟨name, hname⟩

/-- Reads a cell twice at the same time, by a named view and by one of its own, and asks for a write
view meanwhile. -/
def readTwice (place : Place) : Program :=
  .andThen (.perform (.view (.openAs "v" place .read (.text "k"))))
    (.view place .read (.text "k") fun _ =>
      .attempt (.view place .write (.text "k") fun v => .done v) [.borrow] fun _ => .done .null)

/-- The machine that asks for the write view. -/
def askingToWrite : Machine :=
  (load (.andThen (.perform (.create (.cell "x" (.int 0) none)))
    (.reach (.named "x") readTwice)) (.start .events [])).run 9

/-- The machine that leaves the view that has no name. -/
def leavingOne : Machine := askingToWrite.run 3

theorem views_accounted_readTwice :
    Reachable askingToWrite ∧
      (∃ r, askingToWrite.session.resources[0]? = some r ∧ Faithful askingToWrite 0 r.guard ∧
        r.guard.readers = 2) ∧
      (∃ f, askingToWrite.step.control = .raise f ∧ f.IsConflict .write ∧
        askingToWrite.step.session.shared = askingToWrite.session.shared) ∧
      Removes leavingOne leavingOne.step ⟨0, .read⟩ ∧ leavingOne.step.outcome?.isSome = true ∧
      ∃ r, leavingOne.step.session.resources[0]? = some r ∧ r.guard.isBorrowed = true ∧
        ∃ name mode, leavingOne.step.session.views.get? name = some ⟨0, mode⟩ := by
  have hm : Reachable askingToWrite := (Reachable.start ..).leads (leads_run ..)
  have hm₁ : Reachable leavingOne := hm.leads (leads_run ..)
  have hm₂ : Reachable leavingOne.step := hm₁.move (.step rfl)
  obtain ⟨r, found, hreaders⟩ : ∃ r, askingToWrite.session.resources[0]? = some r ∧
      r.guard.readers = 2 := ⟨_, rfl, rfl⟩
  obtain ⟨hfaithful, hrefused, -⟩ := views_accounted hm found
  have hdemands : Demands askingToWrite.session 0 .write (.text "k")
      (.view ⟨0, none⟩ .write (.text "k") fun v => .done v) :=
    @Demands.view _ _ ⟨0, none⟩ rfl _ _ _
  have hblocked : askingToWrite.Blocked 0 .write := by
    rw [← hfaithful.obstacle?_ne_none_iff, ne_eq, Guard.obstacle?_write_eq_none_iff,
      Guard.isBorrowed, hreaders, Bool.or_eq_false_iff]
    exact fun h => Bool.noConfusion h.2
  obtain ⟨f, hstep, hshared, -, hconflict⟩ := (hrefused _ _ _ rfl hdemands).1 hblocked
  obtain ⟨r₁, found₁⟩ : ∃ r, leavingOne.session.resources[0]? = some r := ⟨_, rfl⟩
  obtain ⟨-, -, -, hleave, -⟩ := views_accounted hm₁ found₁
  obtain ⟨-, -, hremoves⟩ := hleave .read [] rfl rfl
  obtain ⟨r₂, found₂, hborrowed⟩ : ∃ r, leavingOne.step.session.resources[0]? = some r ∧
      r.guard.isBorrowed = true := ⟨_, rfl, rfl⟩
  obtain ⟨-, -, -, -, -, hbetween⟩ := views_accounted hm₂ found₂
  exact ⟨hm, ⟨r, found, hfaithful, hreaders⟩, ⟨f, by rw [hstep]; rfl, hconflict rfl, hshared⟩,
    hremoves, rfl, r₂, found₂, hborrowed, (hbetween rfl).mp hborrowed⟩

/-- Asks for a read view inside a write view, with a key that cannot be shown. -/
def longKeyInside (place : Place) : Program :=
  .view place .write .null fun _ => .view place .read longKey fun v => .done v

/-- The machine that asks for the read view. -/
def askingWithLongKey : Machine :=
  (load (.andThen (.perform (.create (.cell "x" (.int 0) none)))
    (.reach (.named "x") longKeyInside)) (.start .events [])).run 5

/-- A read view is requested while a write view is active, and the fault that is raised is not of
the borrowing kind, because the key of the request cannot be shown. -/
theorem conflict_lost_on_long_key :
    Reachable askingWithLongKey ∧
      askingWithLongKey.control = .eval (.view ⟨0, none⟩ .read longKey fun v => .done v) ∧
      askingWithLongKey.held ⟨0, .write⟩ = 1 ∧
      ∃ f, askingWithLongKey.step.control = .raise f ∧ f.kind ≠ .borrow := by
  have hm : Reachable askingWithLongKey := (Reachable.start ..).leads (leads_run ..)
  have hdemands : Demands askingWithLongKey.session 0 .read longKey
      (.view ⟨0, none⟩ .read longKey fun v => .done v) :=
    @Demands.view _ _ ⟨0, none⟩ rfl _ _ _
  obtain ⟨r, found, hactive⟩ : ∃ r, askingWithLongKey.session.resources[0]? = some r ∧
      r.guard.obstacle? .read = some .write := ⟨_, rfl, rfl⟩
  have hstep := hdemands.begin_of_obstacle found hactive askingWithLongKey.stack
  have htext : (askingWithLongKey.session.request longKey).text?.get = none :=
    askingWithLongKey.session.memory.text?_longKey
  refine ⟨hm, rfl, rfl, _, congrArg Machine.control hstep, ?_⟩
  rw [Request.kind_fault_conflict, htext]
  decide

end Machine

end CheckedMemo
