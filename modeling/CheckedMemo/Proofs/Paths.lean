import CheckedMemo.Proofs.Trails

/-!
# Paths

A path is the way a program takes while it is at work on top of some frames, through machines that
all satisfy a condition.  Where a path leads, the program ends as it would have from the start
(`Path.ends_iff`), and a session that goes through the start of a path goes through all of it
(`Path.leads_cases`).

A program that comes to its end has come back to the thread that it was started on
(`Ends.thread_eq`).
-/

namespace CheckedMemo

/-- Whether a program is a call of stored code. -/
def Program.isInvoke : Program → Bool
  | .invoke .. => true
  | _ => false

/-- Whether stored code is about to be called. -/
def Control.isInvoke : Control → Bool
  | .eval p => p.isInvoke
  | .give _ | .raise _ => false

/-- Whether a program calls stored code or looks some up. -/
def Program.consults : Program → Bool
  | .invoke .. | .locate .. => true
  | _ => false

/-- Whether stored code is about to be called or looked up. -/
def Control.consults : Control → Bool
  | .eval p => p.consults
  | .give _ | .raise _ => false

namespace Machine

variable {Q Q' : Machine → Prop} {base : List Frame} {m m' n : Machine}

/-- The program that `m` is about to run comes to `n` before it hands its outcome to `base` and goes
on there, and all machines that it takes a step from on the way satisfy `Q`. -/
inductive Path (Q : Machine → Prop) (base : List Frame) : Machine → Machine → Prop where
  | refl (m : Machine) : Path Q base m m
  | step {m n : Machine} (h : ¬(m.stack = base ∧ m.control.isOutcome = true)) (hq : Q m)
    (rest : Path Q base m.step n) : Path Q base m n

namespace Path

/-- One step of a program that is evaluated. -/
theorem eval {p : Program} (hc : m.control = .eval p) (hq : Q m) (hstep : m.step = n) :
    Path Q base m n :=
  .step (not_ended_of_eval hc) hq (hstep ▸ .refl _)

/-- One step that takes an outcome to a frame above `base`. -/
theorem resume {frame : Frame} (hb : frame :: base <:+ m.stack) (hq : Q m) (hstep : m.step = n) :
    Path Q base m n :=
  .step (Trail.ne_of_suffix hb) hq (hstep ▸ .refl _)

/-- One step that takes an outcome to the innermost of some frames above `base`. -/
theorem leave {frame : Frame} {rest : List Frame} (hs : m.stack = frame :: rest)
    (hb : base <:+ rest) (hq : Q m) (hstep : m.step = n) : Path Q base m n := by
  refine .step ?_ hq (hstep ▸ .refl _)
  rintro ⟨hbase, -⟩
  have hlength := hb.length_le
  rw [← hbase, hs, List.length_cons] at hlength
  omega

theorem trans (h : Path Q base m n) (h' : Path Q base n m') : Path Q base m m' := by
  induction h with
  | refl => exact h'
  | step hne hq _ ih => exact .step hne hq (ih h')

theorem mono (h : Path Q base m n) (hQ : ∀ m, Q m → Q' m) : Path Q' base m n := by
  induction h with
  | refl => exact .refl _
  | step hne hq _ ih => exact .step hne (hQ _ hq) ih

theorem suffix (hb : base <:+ m.stack) (h : Path Q base m n) : base <:+ n.stack := by
  induction h with
  | refl => exact hb
  | step hne _ _ ih => exact ih (suffix_step hb hne)

theorem leads (hb : base <:+ m.stack) (h : Path Q base m n) : Leads m n := by
  induction h with
  | refl => exact .refl
  | step hne _ _ ih => exact .head (Ends.move hb hne) (ih (suffix_step hb hne))

/-- What holds at the start of a path and is kept by each of its steps holds at its end. -/
theorem induction {P : Machine → Prop} (h : Path Q base m n) (hb : base <:+ m.stack) (hm : P m)
    (step : ∀ m, P m → Q m → ¬(m.stack = base ∧ m.control.isOutcome = true) → Move m m.step →
      P m.step) : P n := by
  induction h with
  | refl => exact hm
  | step hne hq _ ih => exact ih (suffix_step hb hne) (step _ hm hq hne (Ends.move hb hne))

/-- A session that is run goes along a path. -/
theorem of_run (fuel : Nat) (hq : ∀ i < fuel, Q (m.run i)) : Path Q [] m (m.run fuel) := by
  induction fuel generalizing m with
  | zero => exact .refl m
  | succ fuel ih =>
    rw [run]
    split
    · exact .refl m
    · rename_i hend
      refine .step (fun h => hend ((outcome?_isSome_iff m).mpr h)) (hq 0 (Nat.succ_pos fuel))
        (ih ?_)
      intro i hi
      have hnext := hq (i + 1) (Nat.succ_lt_succ hi)
      rwa [run, if_neg hend] at hnext

/-- What happens on top of frames happens on top of the lower ones among them. -/
theorem lower {above : List Frame} (hbase : base <:+ above) (hb : above <:+ m.stack)
    (h : Path Q above m n) : Path Q base m n := by
  induction h with
  | refl => exact .refl _
  | @step m n hne hq _ ih =>
    refine .step ?_ hq (ih (suffix_step hb hne))
    rintro ⟨hs, hc⟩
    -- a machine that has nothing but `base` has nothing above it
    have habove : above = base := by
      rw [hs] at hb
      exact hb.eq_of_length (Nat.le_antisymm hb.length_le hbase.length_le)
    exact hne ⟨hs.trans habove.symm, hc⟩

/-- A program ends as it does from any machine that it comes to. -/
theorem ends_iff (h : Path Q base m n) : Ends base m m' ↔ Ends base n m' := by
  induction h with
  | refl => exact Iff.rfl
  | step hne _ _ ih =>
    constructor
    · intro hends
      cases hends with
      | here hs hc => exact absurd ⟨hs, hc⟩ hne
      | step _ rest => exact ih.mp rest
    · exact fun hends => .step hne (ih.mpr hends)

/-- Paths to machines at which a path stops lead to the same one. -/
theorem unique {n' : Machine} (h : Path Q base m n) (h' : Path Q base m n')
    (hn : ¬Q n ∨ n.stack = base ∧ n.control.isOutcome = true) (hn' : ¬Q n') : n = n' := by
  induction h with
  | refl =>
    cases h' with
    | refl => rfl
    | step hne hq =>
      rcases hn with hn | hend
      · exact absurd hq hn
      · exact absurd hend hne
  | step hne hq _ ih =>
    cases h' with
    | refl => exact absurd hq hn'
    | step _ _ rest => exact ih rest hn

/-- A session that comes to the start of a path goes along it. -/
theorem leads_cases (h : Path Q base m n) (hb : base <:+ m.stack) (hleads : Leads m m') :
    Q m' ∨ Leads n m' := by
  induction h with
  | refl => exact .inr hleads
  | @step m n hne hq _ ih =>
    rcases Relation.ReflTransGen.cases_head hleads with rfl | ⟨m₁, hmove, hrest⟩
    · exact .inl hq
    · have hstep : m₁ = m.step := by
        cases hmove with
        | step => rfl
        | next hend =>
          -- the program is still at work
          obtain ⟨hs, hc⟩ := (outcome?_isSome_iff _).mp hend
          rw [hs, List.suffix_nil] at hb
          exact absurd ⟨hs.trans hb.symm, hc⟩ hne
      subst hstep
      exact ih (suffix_step hb hne) hrest

end Path

theorem Ends.path (h : Ends base m m') : Path (fun _ => True) base m m' := by
  induction h with
  | here => exact .refl _
  | step hne _ ih => exact .step hne trivial ih

/-- All that a program does until it ends leads to the end. -/
theorem Ends.path_leads (hb : base <:+ m.stack) (h : Ends base m m') :
    Path (Leads · m') base m m' := by
  induction h with
  | here => exact .refl _
  | step hne rest ih =>
    exact .step hne (Ends.leads hb (.step hne rest)) (ih (suffix_step hb hne))

/-- A program that comes to its end has come to the end of what it is at work on before. -/
theorem Ends.exists_above {above : List Frame} (h : Ends base m m') (hbase : base <:+ above)
    (hb : above <:+ m.stack) : ∃ m₁, Ends above m m₁ := by
  induction h with
  | @here m hs hc =>
    refine ⟨m, .here (hb.eq_of_length (Nat.le_antisymm hb.length_le ?_)).symm hc⟩
    rw [hs]
    exact hbase.length_le
  | @step m m' _ _ ih =>
    by_cases hend : m.stack = above ∧ m.control.isOutcome = true
    · exact ⟨m, .here hend.1 hend.2⟩
    · obtain ⟨m₁, hm₁⟩ := ih (suffix_step hb hend)
      exact ⟨m₁, .step hend hm₁⟩

/-! ### Steps that call no code -/

/-- The program that `m` is about to run comes to `n` without a call of stored code. -/
abbrev Silent : List Frame → Machine → Machine → Prop := Path fun m => m.control.isInvoke = false

theorem not_isInvoke_of_isOutcome {c : Control} (h : c.isOutcome = true) : c.isInvoke = false := by
  cases c with
  | eval p => cases h
  | give | raise => rfl

theorem Silent.eval {p : Program} (hc : m.control = .eval p) (hp : p.isInvoke = false)
    (hstep : m.step = n) : Silent base m n :=
  Path.eval hc (hc ▸ hp) hstep

theorem Silent.resume {frame : Frame} {rest : List Frame} (hs : m.stack = frame :: rest)
    (hb : base <:+ rest) (hc : m.control.isOutcome = true) (hstep : m.step = n) :
    Silent base m n :=
  Path.leave hs hb (not_isInvoke_of_isOutcome hc) hstep

/-- The program that `m` is about to run comes to `n`, and stored code is neither looked up nor
called on the way. -/
abbrev Unaided : List Frame → Machine → Machine → Prop := Path fun m => m.control.consults = false

theorem not_consults_of_isOutcome {c : Control} (h : c.isOutcome = true) : c.consults = false := by
  cases c with
  | eval p => cases h
  | give | raise => rfl

theorem Unaided.eval {p : Program} (hc : m.control = .eval p) (hp : p.consults = false)
    (hstep : m.step = n) : Unaided base m n :=
  Path.eval hc (hc ▸ hp) hstep

theorem Unaided.resume {frame : Frame} {rest : List Frame} (hs : m.stack = frame :: rest)
    (hb : base <:+ rest) (hc : m.control.isOutcome = true) (hstep : m.step = n) :
    Unaided base m n :=
  Path.leave hs hb (not_consults_of_isOutcome hc) hstep

theorem Unaided.silent (h : Unaided base m n) : Silent base m n := by
  refine h.mono fun m hm => ?_
  cases hc : m.control with
  | give | raise => rfl
  | eval p =>
    rw [hc] at hm
    cases p with
    | invoke => cases hm
    | _ => rfl

/-- The first call of stored code that a program with `depth` frames below it makes, if it is found
within `fuel` steps. -/
def firstCall? (depth : Nat) : Nat → Machine → Option Machine
  | 0, _ => none
  | fuel + 1, m =>
    if m.control.isInvoke = true then some m
    else if m.stack.length = depth ∧ m.control.isOutcome = true then none
    else firstCall? depth fuel m.step

theorem Silent.of_firstCall? (fuel : Nat) (h : firstCall? base.length fuel m = some n) :
    Silent base m n := by
  induction fuel generalizing m with
  | zero => cases h
  | succ fuel ih =>
    rw [firstCall?] at h
    split at h
    · cases h
      exact .refl _
    · rename_i hcall
      split at h
      · cases h
      · rename_i hend
        refine .step ?_ (Bool.eq_false_iff.mpr hcall) (ih h)
        rintro ⟨hs, hc⟩
        exact hend ⟨congrArg List.length hs, hc⟩

/-! ### Threads -/

/-- How a move changes the thread and the stack: a frame is left, and the thread is the one below
it, or frames are entered below which the thread is as before. -/
theorem Change.thread_cases (h : Change m m') :
    (∃ frame, m.stack = frame :: m'.stack ∧
      m'.session.thread = frame.threadBelow m.session.thread) ∨
    ∃ frames, m'.stack = frames ++ m.stack ∧
      frames.foldl Frame.threadBelow m'.session.thread = m.session.thread := by
  have hthread {c : Shared} (h : m'.session.shared = c) : m'.session.thread = c.thread :=
    congrArg Shared.thread h
  cases h with
  | idle shared stack =>
    rcases stack with hs | ⟨frame, hframe, hs | hs⟩
    · exact .inr ⟨[], hs, hthread shared⟩
    · refine .inr ⟨[frame], hs, ?_⟩
      cases frame with
      | bind | attempt | timer => exact hthread shared
      | _ => cases hframe
    · refine .inl ⟨frame, hs, ?_⟩
      cases frame with
      | bind | attempt | timer => exact hthread shared
      | _ => cases hframe
  | make _ _ shared stack | hitStable _ _ _ _ _ _ shared stack =>
    exact .inr ⟨[], stack, hthread shared⟩
  | depart thread shared stack => exact .inr ⟨[_], stack, rfl⟩
  | comeBack back shared stack => exact .inl ⟨_, stack, hthread shared⟩
  | enter id mode r _ _ shared stack => exact .inr ⟨[_], stack, hthread shared⟩
  | leave id mode shared stack =>
    refine .inl ⟨_, stack, (hthread shared).trans ?_⟩
    exact Session.thread_release ..
  | openNamed name id mode r _ _ shared stack =>
    refine .inr ⟨[], stack, (hthread shared).trans ?_⟩
    exact Session.thread_dropNamed ..
  | closeNamed name shared stack =>
    refine .inr ⟨[], stack, (hthread shared).trans ?_⟩
    exact Session.thread_dropNamed ..
  | missStable _ _ _ _ _ _ _ _ _ _ _ shared stack => exact .inr ⟨[_], stack, hthread shared⟩
  | finish _ _ _ _ _ _ _ shared stack | deposit _ _ _ _ _ _ shared stack
  | abandon _ _ _ _ shared stack => exact .inl ⟨_, stack, hthread shared⟩
  | hitValue _ _ _ _ _ _ _ shared stack => exact .inr ⟨[_], stack, hthread shared⟩
  | missValue _ _ _ _ _ _ _ shared stack => exact .inr ⟨[_, _], stack, hthread shared⟩
  | stray frame shared stack lost =>
    refine .inl ⟨frame, stack, ?_⟩
    cases frame with
    | computing | storing => exact hthread shared
    | _ => exact lost.elim

/-- Whether the program will be on `thread` when it has left all frames above `base`. -/
def ComesBackTo (base : List Frame) (thread : Thread) (m : Machine) : Prop :=
  ∃ above, m.stack = above ++ base ∧ above.foldl Frame.threadBelow m.session.thread = thread

theorem ComesBackTo.step {thread : Thread} (h : ComesBackTo base thread m)
    (hne : ¬(m.stack = base ∧ m.control.isOutcome = true)) : ComesBackTo base thread m.step := by
  obtain ⟨above, hstack, hthread⟩ := h
  rcases (step_change m).thread_cases with ⟨frame, hs, ht⟩ | ⟨frames, hs, ht⟩
  · have hsuffix : base <:+ m.step.stack := suffix_step ⟨above, hstack.symm⟩ hne
    cases above with
    | nil =>
      -- nothing is left above `base` that could be left
      have hlength := hsuffix.length_le
      have hbase : base = frame :: m.step.stack := hstack.symm.trans hs
      rw [hbase, List.length_cons] at hlength
      omega
    | cons frame' above =>
      obtain ⟨rfl, hrest⟩ := List.cons.inj (hs.symm.trans hstack)
      exact ⟨above, hrest, ht ▸ hthread⟩
  · refine ⟨frames ++ above, ?_, ?_⟩
    · rw [hs, hstack, List.append_assoc]
    · rw [List.foldl_append, ht, hthread]

theorem ComesBackTo.thread_eq {thread : Thread} (h : ComesBackTo base thread m)
    (hends : Ends base m m') : m'.session.thread = thread := by
  induction hends with
  | here hs hc =>
    obtain ⟨above, hstack, hthread⟩ := h
    obtain rfl : above = [] := List.self_eq_append_left.mp (hs.symm.trans hstack)
    exact hthread
  | step hne _ ih => exact ih (h.step hne)

/-- A program that has come to its end is back on its thread. -/
theorem Ends.thread_eq (h : Ends m.stack m m') : m'.session.thread = m.session.thread :=
  ComesBackTo.thread_eq ⟨[], rfl, rfl⟩ h

end Machine

end CheckedMemo
