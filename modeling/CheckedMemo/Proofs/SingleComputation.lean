import CheckedMemo.Proofs.Requests

/-!
# Every key is computed once

`computed_once` says of a session, whatever its programs and the functions they compute with are:
the computations of a key never overlap, at most one of them returns a value, and none is called
after that.  A stable cache keeps to this by its marks and a value cache by its write view; what is
common to both is `Settled`, which holds of a key from the first value that was computed for it
on.
-/

namespace CheckedMemo.Machine

variable {m m' : Machine}

/-! ### Tasks -/

theorem tasks_of_starts {x : Task} (h : Starts m m' x) : m.tasks.length < m'.tasks.length := by
  obtain ⟨-, frame, rest, hstack, htask, hsuffix⟩ := h
  have hlength : m.tasks.length ≤ (rest.filterMap Frame.task?).length :=
    (hsuffix.filterMap Frame.task?).length_le
  rw [show m'.tasks = x :: rest.filterMap Frame.task? by
    rw [tasks, hstack, List.filterMap_cons_some htask]]
  exact Nat.lt_succ_of_le hlength

theorem head_tasks_of_starts {x : Task} (h : Starts m m' x) : m'.tasks.head? = some x := by
  obtain ⟨-, frame, rest, hstack, htask, -⟩ := h
  rw [tasks, hstack, List.filterMap_cons_some htask]
  rfl

/-- A computation that starts is in progress, on the thread of the request. -/
theorem Reachable.computations_of_starts (hm : Reachable m) (h : Move m m') {x : Task}
    (hx : Starts m m' x) : m'.computations = ⟨x, m.session.thread⟩ :: m.computations := by
  -- of the three cases only a start makes the stack of tasks longer
  have hlength := tasks_of_starts hx
  have hhead := head_tasks_of_starts hx
  rcases hm.computations_cases h.change with hcalm | ⟨y, -, hstart⟩ | ⟨y, -, hend⟩
  · rw [← map_task_computations, ← map_task_computations, hcalm] at hlength
    omega
  · rw [tasks_of_computations hstart] at hhead
    obtain rfl : y = x := Option.some.inj hhead
    exact hstart
  · rw [tasks_of_computations hend, List.length_cons] at hlength
    omega

/-- A computation starts only if its key is not in progress. -/
theorem Reachable.not_mem_of_starts (hm : Reachable m) (h : Move m m') {x : Task}
    (hx : Starts m m' x) : x ∉ m.tasks ∧ m'.tasks = x :: m.tasks := by
  have htasks : m'.tasks = x :: m.tasks :=
    tasks_of_computations (hm.computations_of_starts h hx)
  have hdistinct : (x :: m.tasks).Nodup := htasks ▸ (hm.move h).sound.distinct
  exact ⟨(List.nodup_cons.mp hdistinct).1, htasks⟩

/-! ### Keys whose computation has returned a value -/

/-- A key is settled as soon as a value was computed for it.  If the value is not stored because a
view is active, the mark stays for good. -/
theorem Reachable.settled_of_returns (hm : Reachable m) {x : Task} {v : Value}
    (h : m.Returns x v) : m.step.Settled x := by
  have htasks := h.tasks_eq
  have hdistinct : (x :: m.step.tasks).Nodup := htasks ▸ hm.sound.distinct
  refine ⟨(List.nodup_cons.mp hdistinct).1, ?_⟩
  have hunstored : m.session.shared.stored x = none :=
    hm.sound.unstored x (htasks ▸ List.mem_cons_self)
  have hlength : m.tasks.length = m.step.tasks.length + 1 := by rw [htasks, List.length_cons]
  have htask {y : Computation} (hy : m.computations = y :: m.step.computations) : y.task = x := by
    have hcons := (tasks_of_computations hy).symm.trans htasks
    exact (List.cons.inj hcons).1
  cases hm.advance (step_change m) with
  | calm _ computations =>
    rw [← map_task_computations, ← map_task_computations, computations] at hlength
    omega
  | startStable y _ _ _ _ _ _ _ computations | startValue y _ _ _ _ _ _ computations =>
    rw [tasks_of_computations computations, List.length_cons] at hlength
    omega
  | drop y finishes stored others own computations =>
    rcases own with ⟨⟨f, hf⟩, -⟩ | ⟨⟨-, key, rest, c, -, found, -⟩, hmark⟩
    · cases h.1.symm.trans hf
    · -- a view is in the way, and the mark stays
      right
      rw [← htask computations, hmark]
      rcases hm.sound.marked y (computations ▸ List.mem_cons_self) with hmarked | ⟨c', found'⟩
      · rw [hmarked]
        exact Option.some_ne_none _
      · cases found.symm.trans found'
  | keep y w finishes control value stored others own computations =>
    left
    rw [htask computations] at value
    rw [value hunstored]
    exact Option.some_ne_none _

theorem Settled.not_starts {x : Task} (hr : Reachable m) (hm : m.Settled x) (h : Move m m') :
    ¬Starts m m' x := by
  intro hstarts
  have hended := (hm.change hr h.change).1.ended
  rw [(hr.not_mem_of_starts h hstarts).2] at hended
  exact hended List.mem_cons_self

end CheckedMemo.Machine
