import CheckedMemo.Proofs.Change

/-!
# What caches hold

`Shared.stored` is the value that a cache has for a key, and `Shared.mark` the thread for which the
key is marked.  Making resources, opening and closing views and counting hits leave both alone
(`Alike.of_release`, `Alike.of_set` and their like), so of all changes only the beginnings and the
ends of computations are left to look at.  No change turns a resource into one of another sort
(`Change.keeps`).
-/

namespace CheckedMemo

/-- A key for which a cache may hold a value, and the cache. -/
structure Task where
  cache : Nat
  key : Key
  deriving DecidableEq

namespace Resource

/-- The stored values, none for a cell. -/
def slots : Resource → Table Key Value
  | .cell .. => ∅
  | .stable c => c.slots
  | .value c => c.slots

/-- The marks; only a stable cache has any. -/
def pending : Resource → Table Key Thread
  | .stable c => c.pending
  | .cell .. | .value _ => ∅

/-- Whether two resources are both cells, both stable caches or both value caches. -/
def SameSort : Resource → Resource → Prop
  | .cell .., .cell .. | .stable _, .stable _ | .value _, .value _ => True
  | _, _ => False

theorem SameSort.refl (r : Resource) : r.SameSort r := by
  cases r <;> trivial

theorem SameSort.trans {r r' r'' : Resource} (h : r.SameSort r') (h' : r'.SameSort r'') :
    r.SameSort r'' := by
  cases r <;> cases r' <;> cases r'' <;> simp_all [SameSort]

theorem SameSort.mapGuard (f : Guard → Guard) (r : Resource) : r.SameSort (r.mapGuard f) := by
  cases r <;> trivial

theorem SameSort.stable {c : StableCache} {r : Resource} (h : (Resource.stable c).SameSort r) :
    ∃ c', r = .stable c' := by
  cases r with
  | stable c' => exact ⟨c', rfl⟩
  | cell | value => exact h.elim

theorem SameSort.value {c : ValueCache} {r : Resource} (h : (Resource.value c).SameSort r) :
    ∃ c', r = .value c' := by
  cases r with
  | value c' => exact ⟨c', rfl⟩
  | cell | stable => exact h.elim

@[simp] theorem slots_mapGuard (f : Guard → Guard) (r : Resource) :
    (r.mapGuard f).slots = r.slots := by
  cases r <;> rfl

@[simp] theorem pending_mapGuard (f : Guard → Guard) (r : Resource) :
    (r.mapGuard f).pending = r.pending := by
  cases r <;> rfl

end Resource

namespace Shared

variable {c c' : Shared} {id : Nat} {r₀ r : Resource}

/-- The value that is stored for a key, if there is one. -/
def stored (c : Shared) (x : Task) : Option Value :=
  (c.resources[x.cache]?).elim none (·.slots.get? x.key)

/-- The thread for which a key is marked, if it is. -/
def mark (c : Shared) (x : Task) : Option Thread :=
  (c.resources[x.cache]?).elim none (·.pending.get? x.key)

theorem stored_of_found {x : Task} (h : c.resources[x.cache]? = some r) :
    c.stored x = r.slots.get? x.key := by
  rw [stored, h]
  rfl

theorem mark_of_found {x : Task} (h : c.resources[x.cache]? = some r) :
    c.mark x = r.pending.get? x.key := by
  rw [mark, h]
  rfl

theorem stored_set (found : c.resources[id]? = some r₀) (r : Resource) (x : Task) :
    (c.set id r).stored x = if x.cache = id then r.slots.get? x.key else c.stored x := by
  rw [stored, getElem?_resources_set found]
  split <;> rfl

theorem mark_set (found : c.resources[id]? = some r₀) (r : Resource) (x : Task) :
    (c.set id r).mark x = if x.cache = id then r.pending.get? x.key else c.mark x := by
  rw [mark, getElem?_resources_set found]
  split <;> rfl

theorem stored_set_own {x : Task} (found : c.resources[x.cache]? = some r₀) (r : Resource) :
    (c.set x.cache r).stored x = r.slots.get? x.key := by
  rw [stored_set found, if_pos rfl]

theorem mark_set_own {x : Task} (found : c.resources[x.cache]? = some r₀) (r : Resource) :
    (c.set x.cache r).mark x = r.pending.get? x.key := by
  rw [mark_set found, if_pos rfl]

theorem stored_set_of_slots (found : c.resources[id]? = some r₀) (hslots : r.slots = r₀.slots)
    (x : Task) : (c.set id r).stored x = c.stored x := by
  rw [stored_set found]
  by_cases hx : x.cache = id
  · rw [if_pos hx, hslots, stored_of_found (hx ▸ found)]
  · rw [if_neg hx]

theorem mark_set_of_pending (found : c.resources[id]? = some r₀)
    (hpending : r.pending = r₀.pending) (x : Task) : (c.set id r).mark x = c.mark x := by
  rw [mark_set found]
  by_cases hx : x.cache = id
  · rw [if_pos hx, hpending, mark_of_found (hx ▸ found)]
  · rw [if_neg hx]

/-- Replacing a cache by one that differs in one key changes nothing for other keys. -/
theorem stored_set_other {x y : Task} (found : c.resources[x.cache]? = some r₀)
    (h : ∀ k, k ≠ x.key → r.slots.get? k = r₀.slots.get? k) (hy : y ≠ x) :
    (c.set x.cache r).stored y = c.stored y := by
  rw [stored_set found]
  by_cases hcache : y.cache = x.cache
  · have hkey : y.key ≠ x.key := fun hkey => hy (by cases y; cases x; simp_all)
    rw [if_pos hcache, h y.key hkey, stored_of_found (hcache ▸ found)]
  · rw [if_neg hcache]

theorem mark_set_other {x y : Task} (found : c.resources[x.cache]? = some r₀)
    (h : ∀ k, k ≠ x.key → r.pending.get? k = r₀.pending.get? k) (hy : y ≠ x) :
    (c.set x.cache r).mark y = c.mark y := by
  rw [mark_set found]
  by_cases hcache : y.cache = x.cache
  · have hkey : y.key ≠ x.key := fun hkey => hy (by cases y; cases x; simp_all)
    rw [if_pos hcache, h y.key hkey, mark_of_found (hcache ▸ found)]
  · rw [if_neg hcache]

/-! ### Changes that leave contents alone -/

/-- Whether the same is stored and marked. -/
structure Alike (c c' : Shared) : Prop where
  stored (x : Task) : c'.stored x = c.stored x
  mark (x : Task) : c'.mark x = c.mark x

namespace Alike

theorem trans {c'' : Shared} (h : Alike c c') (h' : Alike c' c'') : Alike c c'' :=
  ⟨fun x => (h'.stored x).trans (h.stored x), fun x => (h'.mark x).trans (h.mark x)⟩

theorem of_resources (h : c'.resources = c.resources) : Alike c c' :=
  ⟨fun x => by rw [Shared.stored, h]; rfl, fun x => by rw [Shared.mark, h]; rfl⟩

theorem of_push (hr : r.New) : Alike c (c.push r) := by
  -- nothing is stored or marked in a new resource, and nothing was found in its place before
  have hslots : r.slots = ∅ := by cases hr <;> rfl
  have hpending : r.pending = ∅ := by cases hr <;> rfl
  constructor
  · intro x
    rw [Shared.stored, Shared.stored, getElem?_resources_push]
    by_cases hx : x.cache = c.resources.size
    · rw [if_pos hx, Option.elim_some, hslots, hx, Array.getElem?_size]
      rfl
    · rw [if_neg hx]
  · intro x
    rw [Shared.mark, Shared.mark, getElem?_resources_push]
    by_cases hx : x.cache = c.resources.size
    · rw [if_pos hx, Option.elim_some, hpending, hx, Array.getElem?_size]
      rfl
    · rw [if_neg hx]

theorem of_set (found : c.resources[id]? = some r₀) (hslots : r.slots = r₀.slots)
    (hpending : r.pending = r₀.pending) : Alike c (c.set id r) :=
  ⟨stored_set_of_slots found hslots, mark_set_of_pending found hpending⟩

theorem of_release (s : Session) (id : Nat) (mode : Mode) :
    Alike s.shared (s.release id mode).shared := by
  unfold Session.release
  split
  · rename_i r found
    exact of_set (c := s.shared) found (Resource.slots_mapGuard ..) (Resource.pending_mapGuard ..)
  · exact of_resources rfl

theorem of_dropNamed (s : Session) (name : String) : Alike s.shared (s.dropNamed name).shared := by
  unfold Session.dropNamed
  split
  · exact of_resources rfl
  · rename_i v hv
    exact (of_release s v.resource v.mode).trans (of_resources rfl)

end Alike

/-! ### Sorts of resources -/

/-- Whether every resource is still there and still of its sort. -/
def Keeps (c c' : Shared) : Prop :=
  ∀ (id : Nat) (r : Resource), c.resources[id]? = some r →
    ∃ r' : Resource, c'.resources[id]? = some r' ∧ r.SameSort r'

namespace Keeps

theorem trans {c'' : Shared} (h : Keeps c c') (h' : Keeps c' c'') : Keeps c c'' := by
  intro id r found
  obtain ⟨r', found', hr'⟩ := h id r found
  obtain ⟨r'', found'', hr''⟩ := h' id r' found'
  exact ⟨r'', found'', hr'.trans hr''⟩

theorem of_resources (h : c'.resources = c.resources) : Keeps c c' :=
  fun _ r found => ⟨r, h ▸ found, .refl r⟩

theorem of_push (r : Resource) : Keeps c (c.push r) := by
  intro i r' found
  obtain ⟨hi, -⟩ := Array.getElem?_eq_some_iff.mp found
  refine ⟨r', ?_, .refl r'⟩
  rw [getElem?_resources_push, if_neg (Nat.ne_of_lt hi), found]

theorem of_set (found : c.resources[id]? = some r₀) (h : r₀.SameSort r) : Keeps c (c.set id r) := by
  intro i r' found'
  rw [getElem?_resources_set found]
  by_cases hi : i = id
  · rw [hi, found] at found'
    cases found'
    exact ⟨r, if_pos hi, h⟩
  · exact ⟨r', (if_neg hi).trans found', .refl r'⟩

theorem of_release (s : Session) (id : Nat) (mode : Mode) :
    Keeps s.shared (s.release id mode).shared := by
  unfold Session.release
  split
  · rename_i r found
    exact of_set (c := s.shared) found (.mapGuard ..)
  · exact of_resources rfl

theorem of_dropNamed (s : Session) (name : String) : Keeps s.shared (s.dropNamed name).shared := by
  unfold Session.dropNamed
  split
  · exact of_resources rfl
  · rename_i v hv
    exact (of_release s v.resource v.mode).trans (of_resources rfl)

end Keeps

end Shared

namespace Machine

variable {m m' : Machine}

/-- Nothing ever turns a resource into one of another sort. -/
theorem Change.keeps (h : Change m m') : m.session.shared.Keeps m'.session.shared := by
  cases h with
  | idle shared | abandon _ _ _ _ shared | stray _ shared =>
    rw [shared]
    exact .of_resources rfl
  | make r new shared =>
    rw [shared]
    exact .of_push r
  | depart thread shared | comeBack thread shared =>
    rw [shared]
    exact .of_resources rfl
  | enter id mode r found free shared =>
    rw [shared]
    exact .of_set (c := m.session.shared) found (.mapGuard ..)
  | leave id mode shared =>
    rw [shared]
    exact .of_release m.session id mode
  | openNamed name id mode r found free shared =>
    have hset : m.session.shared.Keeps (m.session.shared.set id (r.mapGuard (·.acquire mode))) :=
      .of_set found (.mapGuard ..)
    rw [shared]
    exact (hset.trans (.of_dropNamed (m.session.setResource id _) name)).trans (.of_resources rfl)
  | closeNamed name shared =>
    rw [shared]
    exact .of_dropNamed m.session name
  | hitStable id c _ _ found _ shared | missStable id c _ _ found _ _ _ _ _ _ shared
  | finish id _ _ c _ _ found shared | hitValue id c _ _ found _ _ shared
  | missValue id c _ found _ _ _ shared | deposit id c _ _ _ found shared =>
    rw [shared]
    exact .of_set (c := m.session.shared) found trivial

theorem Leads.keeps (h : Leads m m') : m.session.shared.Keeps m'.session.shared := by
  induction h with
  | refl => exact .of_resources rfl
  | tail _ hmove ih => exact ih.trans hmove.change.keeps

end Machine

end CheckedMemo
