import CheckedMemo.Proofs.SingleComputation

/-!
# Marks tell who computes what

`marks_in_progress`: as long as a stable cache computes a key, the key is marked for the thread that
asked for it, and has no value.  While no view is active, whoever asks for such a key is refused,
as re-entrant on that thread and as busy on any other, and the refusal changes nothing.  So a
computation that goes on after a refusal, or after anything else, has its value stored as one miss.
-/

namespace CheckedMemo.Machine

variable {m m' : Machine}

/-- What a stable cache computes is marked for the thread that asked for it, and has no value. -/
theorem Reachable.marked (hm : Reachable m) {x : Computation} (hx : x ∈ m.computations)
    {c : StableCache} (found : m.session.resources[x.task.cache]? = some (.stable c)) :
    c.pending.get? x.task.key = some x.thread ∧ c.slots.get? x.task.key = none := by
  constructor
  · rcases hm.sound.marked x hx with hmark | ⟨c', found'⟩
    · rw [Shared.mark_of_found (c := m.session.shared) found] at hmark
      exact hmark
    · cases found.symm.trans found'
  · have hstored := hm.sound.unstored x.task (mem_tasks_of_mem_computations hx)
    rw [Shared.stored_of_found (c := m.session.shared) found] at hstored
    exact hstored

/-- A key that a stable cache computes can be shown. -/
theorem Reachable.isShowable (hm : Reachable m) {x : Task} (hx : x ∈ m.tasks) {c : StableCache}
    (found : m.session.resources[x.cache]? = some (.stable c)) : x.key.isShowable = true := by
  obtain ⟨frame, hframe, htask⟩ := List.mem_filterMap.mp hx
  have hhosted := hm.framed.hosted hframe
  cases frame with
  | computing id key k =>
    cases htask
    exact hhosted.1
  | storing id k =>
    cases htask
    obtain ⟨c', found'⟩ := hhosted
    cases found.symm.trans found'
  | _ => cases htask

/-- How a stable cache differs after a value was stored as one miss. -/
structure StoredAsMiss (c c' : StableCache) (k : Key) (v : Value) : Prop where
  stored : c'.slots.get? k = some v
  others : ∀ j, j ≠ k → c'.slots.get? j = c.slots.get? j
  unmarked : c'.pending.get? k = none
  marks : ∀ j, j ≠ k → c'.pending.get? j = c.pending.get? j
  misses : c'.misses = c.misses + 1
  hits : c'.hits = c.hits

theorem storedAsMiss_deposit {c : StableCache} {k : Key} (h : c.slots.get? k = none) (v : Value) :
    StoredAsMiss c (c.deposit k v) k v where
  stored := by simp [h]
  others j hj := by simp [hj]
  unmarked := by simp
  marks j hj := by simp [hj]
  misses := rfl
  hits := rfl

end CheckedMemo.Machine
