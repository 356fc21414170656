import CheckedMemo.Proofs.Change

/-!
# Views are accounted for

Every view that a guard counts is held by somebody: by a frame that is going to release it, or under
a name (`Reachable.accounted`).  So while no view of a resource is active, no frame is going to
release one (`Reachable.release_not_mem`).
-/

namespace CheckedMemo

/-! ### Entries of tables -/

namespace Table

variable {α β : Type} [DecidableEq α]

/-- The stored values, in the order of their keys. -/
def values (t : Table α β) : List β := t.entries.map Prod.snd

theorem mem_keys_of_get? {t : Table α β} {a : α} {b : β} (h : t.get? a = some b) : a ∈ t.keys := by
  obtain ⟨entries⟩ := t
  induction entries with
  | nil => cases h
  | cons e rest ih => grind [get?, lookup, keys]

theorem get?_eq_none_of_not_mem {t : Table α β} {a : α} (h : a ∉ t.keys) : t.get? a = none := by
  cases hb : t.get? a with
  | none => rfl
  | some b => exact absurd (mem_keys_of_get? hb) h

theorem not_mem_keys_of_get? {t : Table α β} {a : α} (h : t.get? a = none) : a ∉ t.keys := by
  obtain ⟨entries⟩ := t
  induction entries with
  | nil => exact List.not_mem_nil
  | cons e rest ih => grind [get?, lookup, keys]

theorem erase_of_get? {t : Table α β} {a : α} (h : t.get? a = none) : t.erase a = t := by
  obtain ⟨entries⟩ := t
  induction entries with
  | nil => rfl
  | cons e rest ih => grind [get?, lookup, erase, drop]

theorem insert_of_get? {t : Table α β} {a : α} (h : t.get? a = none) (b : β) :
    t.insert a b = ⟨t.entries ++ [(a, b)]⟩ := by
  obtain ⟨entries⟩ := t
  induction entries with
  | nil => rfl
  | cons e rest ih => grind [get?, lookup, insert, put]

theorem erase_cons (e : α × β) (rest : List (α × β)) (a : α) :
    erase ⟨e :: rest⟩ a = if e.1 = a then erase ⟨rest⟩ a else ⟨e :: drop a rest⟩ := by
  by_cases he : e.1 = a <;> simp [erase, drop, he]

theorem keys_erase_sublist (t : Table α β) (a : α) : (t.erase a).keys.Sublist t.keys := by
  obtain ⟨entries⟩ := t
  induction entries with
  | nil => exact List.Sublist.refl []
  | cons e rest ih =>
    rw [erase_cons]
    by_cases he : e.1 = a
    · rw [if_pos he]
      exact ih.cons e.1
    · rw [if_neg he]
      exact ih.cons_cons e.1

/-- Erasing a key takes its one value away. -/
theorem count_values_erase [DecidableEq β] {t : Table α β} (ht : t.keys.Nodup) {a : α} {b : β}
    (hb : t.get? a = some b) (x : β) :
    (t.erase a).values.count x + [b].count x = t.values.count x := by
  obtain ⟨entries⟩ := t
  induction entries with
  | nil => cases hb
  | cons e rest ih =>
    obtain ⟨hnot, hrest⟩ := List.nodup_cons.mp ht
    rw [erase_cons]
    by_cases he : e.1 = a
    · -- the key occurs once, so nothing is erased from the rest
      have hnone : Table.get? ⟨rest⟩ a = none := get?_eq_none_of_not_mem (he ▸ hnot)
      obtain rfl : e.2 = b := by simpa [get?, lookup, he] using hb
      rw [if_pos he, erase_of_get? hnone, Nat.add_comm, ← List.count_append]
      rfl
    · have hb' : Table.get? ⟨rest⟩ a = some b := by simpa [get?, lookup, he] using hb
      have hcount := ih hrest hb'
      rw [if_neg he]
      simp only [values, erase, List.map_cons, List.count_cons] at hcount ⊢
      omega

theorem count_values_insert [DecidableEq β] {t : Table α β} {a : α} (ha : t.get? a = none) (b : β)
    (x : β) : (t.insert a b).values.count x = t.values.count x + [b].count x := by
  rw [insert_of_get? ha, values, List.map_append, List.count_append]
  rfl

theorem nodup_keys_insert {t : Table α β} (ht : t.keys.Nodup) {a : α} (ha : t.get? a = none)
    (b : β) : (t.insert a b).keys.Nodup := by
  rw [insert_of_get? ha, keys, List.map_append, List.nodup_append]
  refine ⟨ht, List.pairwise_singleton .., ?_⟩
  intro x hx y hy hxy
  rw [List.map_singleton, List.mem_singleton] at hy
  rw [hxy, hy] at hx
  exact not_mem_keys_of_get? ha hx

end Table

/-! ### Views that are active -/

namespace Guard

/-- How many views of a mode are active. -/
def count (g : Guard) : Mode → Nat
  | .read => g.readers
  | .write => g.writing.toNat

theorem count_acquire {g : Guard} {mode : Mode} (h : g.obstacle? mode = none) (x : Mode) :
    (g.acquire mode).count x = g.count x + [mode].count x := by
  cases mode with
  | read => cases x <;> rfl
  | write =>
    have hwriting : g.writing = false := by grind [obstacle?]
    cases x with
    | read => rfl
    | write => simp [count, acquire, hwriting]

theorem count_release (g : Guard) (mode x : Mode) :
    (g.release mode).count x = g.count x - [mode].count x := by
  cases mode <;> cases x <;> simp [count, release]
  have := Bool.toNat_le g.writing
  omega

theorem count_eq_zero_of_free {g : Guard} (h : g.isBorrowed = false) (x : Mode) :
    g.count x = 0 := by
  cases x <;> grind [isBorrowed, count]

end Guard

namespace Shared

variable {c : Shared} {id : Nat} {r r' : Resource}

/-- How many views like `v` are active. -/
def active (c : Shared) (v : OpenView) : Nat :=
  (c.resources[v.resource]?).elim 0 (·.guard.count v.mode)

theorem active_of_found {v : OpenView} (h : c.resources[v.resource]? = some r) :
    c.active v = r.guard.count v.mode := by
  rw [active, h]
  rfl

theorem active_set_of_guard (found : c.resources[id]? = some r) (h : r'.guard = r.guard)
    (v : OpenView) : (c.set id r').active v = c.active v := by
  rw [active, active, getElem?_resources_set found]
  by_cases hv : v.resource = id
  · rw [if_pos hv, hv, found]
    exact congrArg (Guard.count · v.mode) h
  · rw [if_neg hv]

theorem active_acquire {mode : Mode} (found : c.resources[id]? = some r)
    (free : r.guard.obstacle? mode = none) (h : r'.guard = r.guard.acquire mode) (v : OpenView) :
    (c.set id r').active v = c.active v + [⟨id, mode⟩].count v := by
  rw [active, active, getElem?_resources_set found]
  obtain ⟨i, x⟩ := v
  by_cases hi : i = id
  · rw [if_pos hi, hi, found]
    simp only [Option.elim_some]
    rw [h, Guard.count_acquire free]
    simp [List.count_cons]
  · have hcount : [(⟨id, mode⟩ : OpenView)].count ⟨i, x⟩ = 0 := by
      simp [Ne.symm hi]
    rw [if_neg hi, hcount, Nat.add_zero]

theorem active_push (hr : r.New) (v : OpenView) : (c.push r).active v = c.active v := by
  rw [active, active, getElem?_resources_push]
  by_cases hv : v.resource = c.resources.size
  · have hnone : c.resources[v.resource]? = none := by simp [hv]
    rw [if_pos hv, hnone, Option.elim_none, Option.elim_some]
    cases hr <;> exact Guard.count_eq_zero_of_free rfl _
  · rw [if_neg hv]

theorem active_release (s : Session) (id : Nat) (mode : Mode) (v : OpenView) :
    (s.release id mode).shared.active v = s.shared.active v - [⟨id, mode⟩].count v := by
  obtain ⟨i, x⟩ := v
  unfold Session.release
  split
  · rename_i r found
    have found' : s.shared.resources[id]? = some r := found
    rw [Session.shared_setResource, active, active, getElem?_resources_set found']
    by_cases hi : i = id
    · rw [if_pos hi, hi, found']
      simp only [Option.elim_some]
      rw [Resource.guard_mapGuard, Guard.count_release]
      simp [List.count_cons]
    · have hcount : [(⟨id, mode⟩ : OpenView)].count ⟨i, x⟩ = 0 := by
        simp [Ne.symm hi]
      rw [if_neg hi, hcount, Nat.sub_zero]
  · rename_i lost
    have lost' : s.shared.resources[id]? = none := lost
    by_cases hi : i = id
    · rw [active, hi, lost', Option.elim_none, Nat.zero_sub]
    · have hcount : [(⟨id, mode⟩ : OpenView)].count ⟨i, x⟩ = 0 := by
        simp [Ne.symm hi]
      rw [hcount, Nat.sub_zero]

theorem active_dropNamed (s : Session) (name : String) (v : OpenView) :
    (s.dropNamed name).shared.active v =
      s.shared.active v - (s.views.get? name).toList.count v := by
  unfold Session.dropNamed
  cases s.views.get? name with
  | none => rfl
  | some w => exact active_release s w.resource w.mode v

end Shared

theorem Session.views_release (s : Session) (id : Nat) (mode : Mode) :
    (s.release id mode).views = s.views := by
  obtain ⟨_, h⟩ := s.release_eq id mode
  rw [h]

theorem Session.thread_release (s : Session) (id : Nat) (mode : Mode) :
    (s.release id mode).thread = s.thread := by
  obtain ⟨_, h⟩ := s.release_eq id mode
  rw [h]

theorem Session.thread_dropNamed (s : Session) (name : String) :
    (s.dropNamed name).thread = s.thread := by
  obtain ⟨_, _, h⟩ := s.dropNamed_eq name
  rw [h]

theorem Session.views_dropNamed (s : Session) (name : String) :
    (s.dropNamed name).views = s.views.erase name := by
  unfold dropNamed
  cases h : s.views.get? name with
  | none => exact (Table.erase_of_get? h).symm
  | some v => rfl

/-! ### Views that are held -/

/-- The view that a frame is going to release. -/
def Frame.view? : Frame → Option OpenView
  | .release id mode => some ⟨id, mode⟩
  | _ => none

theorem Frame.count_views_release (id : Nat) (mode : Mode) (stack : List Frame) (v : OpenView) :
    ((.release id mode :: stack).filterMap Frame.view?).count v =
      [⟨id, mode⟩].count v + (stack.filterMap Frame.view?).count v := by
  rw [← List.count_append]
  rfl

theorem Frame.view?_of_isIdle {frame : Frame} (h : frame.isIdle = true) : frame.view? = none := by
  cases frame with
  | release => cases h
  | _ => rfl

namespace Machine

variable {m m' : Machine}

/-- How often a view is held: by a frame that is going to release it, or under a name. -/
def held (m : Machine) (v : OpenView) : Nat :=
  (m.stack.filterMap Frame.view?).count v + m.session.views.values.count v

/-- The views that are active are those that are held. -/
structure Accounted (m : Machine) : Prop where
  distinct : m.session.views.keys.Nodup
  active_eq : ∀ v, m.session.shared.active v = m.held v

/-- A change that leaves the names alone has to keep the balance of views and frames. -/
theorem Accounted.of_balance (hm : m.Accounted)
    (views : m'.session.shared.views = m.session.shared.views)
    (balance : ∀ v, m'.session.shared.active v + (m.stack.filterMap Frame.view?).count v =
      m.session.shared.active v + (m'.stack.filterMap Frame.view?).count v) : m'.Accounted := by
  have hviews : m'.session.views = m.session.views := views
  constructor
  · rw [hviews]
    exact hm.distinct
  · intro v
    have hactive := hm.active_eq v
    have hbalance := balance v
    rw [held, hviews]
    rw [held] at hactive
    omega

theorem Accounted.of_same (hm : m.Accounted)
    (resources : m'.session.shared.resources = m.session.shared.resources)
    (views : m'.session.shared.views = m.session.shared.views)
    (frames : m'.stack.filterMap Frame.view? = m.stack.filterMap Frame.view?) :
    m'.Accounted := by
  refine hm.of_balance views ?_
  intro v
  rw [Shared.active, resources, frames]
  rfl

theorem Accounted.of_set (hm : m.Accounted) {id : Nat} {r r' : Resource}
    (found : m.session.resources[id]? = some r)
    (shared : m'.session.shared = m.session.shared.set id r') (guard : r'.guard = r.guard)
    (frames : m'.stack.filterMap Frame.view? = m.stack.filterMap Frame.view?) :
    m'.Accounted := by
  refine hm.of_balance (by rw [shared]; rfl) ?_
  intro v
  have hactive := Shared.active_set_of_guard (c := m.session.shared) found guard v
  rw [shared, hactive, frames]

theorem Accounted.enter (hm : m.Accounted) {id : Nat} {mode : Mode} {r r' : Resource}
    (found : m.session.resources[id]? = some r) (free : r.guard.obstacle? mode = none)
    (shared : m'.session.shared = m.session.shared.set id r')
    (guard : r'.guard = r.guard.acquire mode) (frames : List Frame)
    (stack : m'.stack = frames ++ .release id mode :: m.stack)
    (hframes : frames.filterMap Frame.view? = []) : m'.Accounted := by
  refine hm.of_balance (by rw [shared]; rfl) ?_
  intro v
  have hactive := Shared.active_acquire (c := m.session.shared) found free guard v
  rw [shared, hactive, stack, List.filterMap_append, hframes, List.nil_append,
    Frame.count_views_release, Nat.add_assoc]

theorem Accounted.leave (hm : m.Accounted) {id : Nat} {mode : Mode}
    (shared : m'.session.shared = (m.session.release id mode).shared)
    (stack : m.stack = .release id mode :: m'.stack) : m'.Accounted := by
  refine hm.of_balance (by rw [shared]; exact Session.views_release ..) ?_
  intro v
  -- the view is held, so it is active, and nothing is cut off below zero
  have hactive := hm.active_eq v
  rw [held, stack, Frame.count_views_release] at hactive
  rw [shared, Shared.active_release, stack, Frame.count_views_release]
  omega

/-- Dropping a name takes its view away from the guard and from the names. -/
theorem active_dropNamed_eq {s : Session} {held : OpenView → Nat} (distinct : s.views.keys.Nodup)
    (h : ∀ v, s.shared.active v = held v + s.views.values.count v) (name : String) (v : OpenView) :
    (s.dropNamed name).shared.active v = held v + (s.dropNamed name).views.values.count v := by
  have hactive := h v
  rw [Session.views_dropNamed, Shared.active_dropNamed]
  cases hv : s.views.get? name with
  | none =>
    rw [Table.erase_of_get? hv]
    exact hactive
  | some w =>
    have hcount := Table.count_values_erase distinct hv v
    rw [Option.toList_some]
    omega

theorem Accounted.openNamed (hm : m.Accounted) {name : String} {id : Nat} {mode : Mode}
    {r : Resource} (found : m.session.resources[id]? = some r)
    (free : r.guard.obstacle? mode = none)
    (shared : m'.session.shared =
      ((m.session.setResource id (r.mapGuard (·.acquire mode))).dropNamed name).shared.bindView name
        ⟨id, mode⟩)
    (stack : m'.stack = m.stack) : m'.Accounted := by
  -- the new view is acquired before the one that had its name is released
  set s := m.session.setResource id (r.mapGuard (·.acquire mode)) with hs
  have hdistinct : s.views.keys.Nodup := hm.distinct
  have hacquired (v : OpenView) :
      s.shared.active v = ((m.stack.filterMap Frame.view?).count v + [⟨id, mode⟩].count v) +
        s.views.values.count v := by
    have hactive : s.shared.active v = m.session.shared.active v + [⟨id, mode⟩].count v :=
      Shared.active_acquire (c := m.session.shared) found free (Resource.guard_mapGuard ..) v
    rw [hactive, hm.active_eq v, held]
    exact Nat.add_right_comm ..
  have hviews : m'.session.views = (s.dropNamed name).views.insert name ⟨id, mode⟩ :=
    congrArg Shared.views shared
  have hnone : (s.dropNamed name).views.get? name = none := by
    rw [Session.views_dropNamed, Table.get?_erase, if_pos rfl]
  have hdropped : (s.dropNamed name).views.keys.Nodup := by
    rw [Session.views_dropNamed]
    exact hdistinct.sublist (Table.keys_erase_sublist ..)
  constructor
  · rw [hviews]
    exact Table.nodup_keys_insert hdropped hnone _
  · intro v
    have hactive := active_dropNamed_eq hdistinct hacquired name v
    rw [held, stack, hviews, Table.count_values_insert hnone, shared]
    exact hactive.trans (by omega)

/-- Every change keeps the account of the views. -/
theorem Accounted.change (hm : m.Accounted) (h : Change m m') : m'.Accounted := by
  cases h with
  | idle shared stack =>
    refine hm.of_same (by rw [shared]) (by rw [shared]) ?_
    rcases stack with hstack | ⟨f, hf, hstack | hstack⟩
    · rw [hstack]
    · rw [hstack, List.filterMap_cons_none (Frame.view?_of_isIdle hf)]
    · rw [hstack, List.filterMap_cons_none (Frame.view?_of_isIdle hf)]
  | make r new shared stack =>
    refine hm.of_balance (by rw [shared]; rfl) ?_
    intro v
    rw [shared, stack, Shared.active_push new]
  | depart thread shared stack =>
    exact hm.of_same (by rw [shared]) (by rw [shared]) (by rw [stack]; rfl)
  | comeBack back shared stack =>
    exact hm.of_same (by rw [shared]) (by rw [shared]) (by rw [stack]; rfl)
  | enter id mode r found free shared stack =>
    exact hm.enter found free shared (Resource.guard_mapGuard ..) [] stack rfl
  | leave id mode shared stack => exact hm.leave shared stack
  | openNamed name id mode r found free shared stack => exact hm.openNamed found free shared stack
  | closeNamed name shared stack =>
    have hviews : m'.session.views = (m.session.dropNamed name).views :=
      congrArg Shared.views shared
    constructor
    · rw [hviews, Session.views_dropNamed]
      exact hm.distinct.sublist (Table.keys_erase_sublist ..)
    · intro v
      rw [held, stack, hviews, shared]
      exact active_dropNamed_eq hm.distinct hm.active_eq name v
  | hitStable id c k v found stored shared stack =>
    exact hm.of_set found shared rfl (by rw [stack])
  | missStable id c key k found free absent unmarked indexed showable calls shared stack =>
    exact hm.of_set found shared rfl (by rw [stack]; rfl)
  | finish id key k c outcome control found shared stack =>
    -- the write view in which the cache is updated is left at once
    exact hm.of_set found shared (StableCache.guard_finish ..) (by rw [stack]; rfl)
  | hitValue id c k v found free stored shared stack =>
    exact hm.enter found (Guard.obstacle?_of_not_isBorrowed free _) shared rfl [] stack rfl
  | missValue id c k found free absent calls shared stack =>
    exact hm.enter found (Guard.obstacle?_of_not_isBorrowed free _) shared rfl [.storing id k] stack
      rfl
  | deposit id c k v control found shared stack =>
    exact hm.of_set found shared rfl (by rw [stack]; rfl)
  | abandon id k f control shared stack =>
    exact hm.of_same (by rw [shared]) (by rw [shared]) (by rw [stack]; rfl)
  | stray frame shared stack lost =>
    refine hm.of_same (by rw [shared]) (by rw [shared]) ?_
    rw [stack]
    cases frame with
    | computing | storing => rfl
    | _ => exact lost.elim

theorem Reachable.accounted (hm : Reachable m) : m.Accounted := by
  refine hm.induction ?_ fun m m' _ hm hchange => hm.change hchange
  intro m hstack hshared
  have hviews : m.session.views = ∅ := congrArg Shared.views hshared
  constructor
  · rw [hviews]
    exact List.nodup_nil
  · intro v
    rw [held, hstack, hviews, Shared.active, hshared]
    rfl

/-- While no view of a resource is active, no frame is going to release one. -/
theorem Reachable.release_not_mem (hm : Reachable m) {id : Nat} {r : Resource}
    (found : m.session.resources[id]? = some r) (free : r.guard.isBorrowed = false) (mode : Mode) :
    .release id mode ∉ m.stack := by
  intro hmem
  have hactive : m.session.shared.active ⟨id, mode⟩ = 0 := by
    rw [Shared.active_of_found (v := ⟨id, mode⟩) found]
    exact Guard.count_eq_zero_of_free free mode
  have hpos : 0 < (m.stack.filterMap Frame.view?).count ⟨id, mode⟩ :=
    List.count_pos_iff.mpr (List.mem_filterMap.mpr ⟨_, hmem, rfl⟩)
  have heq := hm.accounted.active_eq ⟨id, mode⟩
  rw [held] at heq
  omega

end Machine

end CheckedMemo
