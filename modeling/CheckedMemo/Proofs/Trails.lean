import CheckedMemo.Proofs.Requests

/-!
# Trails

A trail is the way a program takes while it is at work on top of some frames, together with the
computations that it starts on the way; no other computation is called there.  Trails are put
together one after the other (`Trail.trans`), and what happens on top of a frame happens on top of
the frames below it (`Trail.lower`).  A course is a trail up to the end of the program;
`Ends.exists_course` and `Course.ends` say that a program has a course exactly if it ends.
-/

namespace CheckedMemo.Machine

variable {base : List Frame} {m m' n : Machine} {calls calls' : List Task}

/-- The program that `m` is about to run comes to `n` before it hands its outcome to `base` and goes
on there; on the way it starts the computations of `calls`, in this order, and calls no other. -/
inductive Trail (base : List Frame) : Machine → List Task → Machine → Prop where
  | refl (m : Machine) : Trail base m [] m
  | quiet {m n : Machine} {calls : List Task}
    (h : ¬(m.stack = base ∧ m.control.isOutcome = true)) (silent : ∀ x, ¬Starts m m.step x)
    (uncalled : m.LeavesUncalled) (rest : Trail base m.step calls n) : Trail base m calls n
  | start {m n : Machine} {calls : List Task} {x : Task}
    (h : ¬(m.stack = base ∧ m.control.isOutcome = true)) (starts : Starts m m.step x)
    (rest : Trail base m.step calls n) : Trail base m (x :: calls) n

theorem not_ended_of_eval {p : Program} (hc : m.control = .eval p) :
    ¬(m.stack = base ∧ m.control.isOutcome = true) := by
  rw [hc]
  exact fun h => Bool.noConfusion h.2

namespace Trail

/-- One step that starts no computation, and so calls none. -/
theorem still (hne : ¬(m.stack = base ∧ m.control.isOutcome = true))
    (silent : ∀ x, ¬Starts m m.step x) (hstep : m.step = n) : Trail base m [] n :=
  .quiet hne silent (leavesUncalled_of_not_starts silent) (hstep ▸ .refl _)

/-- One step of a program that is evaluated and asks no cache. -/
theorem eval {p : Program} (hc : m.control = .eval p)
    (hp : ∀ place key compute, p ≠ .get place key compute) (hstep : m.step = n) :
    Trail base m [] n :=
  .still (not_ended_of_eval hc) (not_starts_of_ne hc hp) hstep

/-- One step of a program that is over then. -/
theorem ending {p : Program} (hc : m.control = .eval p) (hn : n.control.isOutcome = true)
    (hstep : m.step = n) : Trail base m [] n :=
  .still (not_ended_of_eval hc) (not_starts_of_step_isOutcome (hstep ▸ hn)) hstep

/-- One step that starts a computation. -/
theorem call {p : Program} {x : Task} (hc : m.control = .eval p) (starts : Starts m n x)
    (hstep : m.step = n) : Trail base m [x] n :=
  .start (not_ended_of_eval hc) (hstep ▸ starts) (hstep ▸ .refl _)

theorem trans (h : Trail base m calls n) (h' : Trail base n calls' m') :
    Trail base m (calls ++ calls') m' := by
  induction h with
  | refl => exact h'
  | quiet hne silent uncalled _ ih => exact .quiet hne silent uncalled (ih h')
  | start hne starts _ ih => exact .start hne starts (ih h')

theorem suffix (hb : base <:+ m.stack) (h : Trail base m calls n) : base <:+ n.stack := by
  induction h with
  | refl => exact hb
  | quiet hne _ _ _ ih | start hne _ _ ih => exact ih (suffix_step hb hne)

theorem leads (hb : base <:+ m.stack) (h : Trail base m calls n) : Leads m n := by
  induction h with
  | refl => exact .refl
  | quiet hne _ _ _ ih | start hne _ _ ih =>
    exact .head (Ends.move hb hne) (ih (suffix_step hb hne))

/-- What holds at the start of a trail and is kept by each of its steps holds at its end. -/
theorem induction {P : Machine → Prop} (h : Trail base m calls n) (hb : base <:+ m.stack)
    (hm : P m) (step : ∀ m, P m → base <:+ m.stack → Move m m.step → base <:+ m.step.stack →
      P m.step) : P n := by
  induction h with
  | refl => exact hm
  | quiet hne _ _ _ ih | start hne _ _ ih =>
    have hstep := suffix_step hb hne
    exact ih hstep (step _ hm hb (Ends.move hb hne) hstep)

/-- A machine that stands on a frame has not ended below it. -/
theorem ne_of_suffix {frame : Frame} (hb : frame :: base <:+ m.stack) :
    ¬(m.stack = base ∧ m.control.isOutcome = true) := by
  rintro ⟨hs, -⟩
  have hlength := hb.length_le
  rw [hs, List.length_cons] at hlength
  omega

/-- What happens on top of a frame happens on top of the frames below it. -/
theorem lower {frame : Frame} (hb : frame :: base <:+ m.stack)
    (h : Trail (frame :: base) m calls n) : Trail base m calls n := by
  induction h with
  | refl => exact .refl _
  | quiet hne silent uncalled _ ih =>
    exact .quiet (ne_of_suffix hb) silent uncalled (ih (suffix_step hb hne))
  | start hne starts _ ih => exact .start (ne_of_suffix hb) starts (ih (suffix_step hb hne))

/-- One step that takes an outcome to a frame above `base`. -/
theorem resume {frame : Frame} (hs : m.stack = frame :: base)
    (hc : m.control.isOutcome = true) (hstep : m.step = n) : Trail base m [] n :=
  .still (ne_of_suffix ⟨[], hs.symm⟩) (not_starts_of_isOutcome hc) hstep

end Trail

/-- The program that `m` is about to run hands its outcome to the frames `base` at `m'`, having
started the computations of `calls`. -/
structure Course (base : List Frame) (m : Machine) (calls : List Task) (m' : Machine) : Prop where
  trail : Trail base m calls m'
  stack_eq : m'.stack = base
  isOutcome : m'.control.isOutcome = true

theorem Course.ends (h : Course base m calls m') : Ends base m m' := by
  obtain ⟨htrail, hs, hc⟩ := h
  induction htrail with
  | refl => exact .here hs hc
  | quiet hne _ _ _ ih | start hne _ _ ih => exact .step hne (ih hs hc)

theorem Ends.exists_course (h : Ends base m m') : ∃ calls, Course base m calls m' := by
  induction h with
  | here hs hc => exact ⟨[], .refl _, hs, hc⟩
  | @step m m' hne _ ih =>
    obtain ⟨calls, htrail, hs, hc⟩ := ih
    by_cases hstarts : ∃ x, Starts m m.step x
    · obtain ⟨x, hx⟩ := hstarts
      exact ⟨x :: calls, .start hne hx htrail, hs, hc⟩
    · exact ⟨calls, (Trail.still hne (not_exists.mp hstarts) rfl).trans htrail, hs, hc⟩

end CheckedMemo.Machine
