import CheckedMemo.Transcript
import Mathlib.Logic.Relation

/-!
# Runs of sessions

A session goes from machine to machine: a program takes its steps, and when it has ended the next
program is loaded, whatever that program is (`Move`).  A machine is reachable if some session comes
to it.

`Ends base m m'` says that the program which `m` is about to run hands its outcome to the frames
`base` at `m'`.  A program that was started on top of a frame ends at that frame first
(`Ends.split`), and nothing it does before reaches below the frame (`suffix_step`).
-/

namespace CheckedMemo

/-- Whether a control is an outcome, and no program to evaluate. -/
def Control.isOutcome : Control → Bool
  | .eval _ => false
  | .give _ | .raise _ => true

/-- The control that hands an outcome to the innermost frame. -/
def Control.ofOutcome : Except Fault Value → Control
  | .ok v => .give v
  | .error f => .raise f

namespace Machine

/-! ### Moves -/

/-- One move of a session. -/
inductive Move : Machine → Machine → Prop where
  /-- The program at work takes a step. -/
  | step {m : Machine} (h : m.outcome? = none) : Move m m.step
  /-- The program at work has ended, and another one is loaded. -/
  | next {m : Machine} (h : m.outcome?.isSome = true) (p : Program) : Move m (load p m.session)

/-- Any number of moves. -/
abbrev Leads : Machine → Machine → Prop := Relation.ReflTransGen Move

/-- The machines that sessions come to. -/
def Reachable (m : Machine) : Prop :=
  ∃ audience environment p, Leads (load p (.start audience environment)) m

theorem Reachable.start (audience : Audience) (environment : List (String × Option String))
    (p : Program) : Reachable (load p (.start audience environment)) :=
  ⟨audience, environment, p, .refl⟩

theorem Reachable.leads {m m' : Machine} (hm : Reachable m) (h : Leads m m') : Reachable m' := by
  obtain ⟨audience, environment, p, hp⟩ := hm
  exact ⟨audience, environment, p, hp.trans h⟩

theorem Reachable.move {m m' : Machine} (hm : Reachable m) (h : Move m m') : Reachable m' :=
  hm.leads (.single h)

/-- What is run with fuel is run by moves. -/
theorem leads_run (fuel : Nat) (m : Machine) : Leads m (m.run fuel) := by
  induction fuel generalizing m with
  | zero => exact .refl
  | succ fuel ih =>
    rw [run]
    split
    · exact .refl
    · rename_i h
      exact .head (.step (Option.not_isSome_iff_eq_none.mp h)) (ih m.step)

/-- The session that a program leaves when it has ended is where the next one starts. -/
theorem Reachable.passage {s : Session} {p : Program} (hp : Reachable (load p s)) (fuel : Nat)
    (audience : Audience) (hend : ((load p s).run fuel).outcome?.isSome = true) (q : Program) :
    Reachable (load q (s.passage fuel audience p).2) :=
  (hp.leads (leads_run fuel _)).move (.next hend q)

theorem outcome?_isSome_iff (m : Machine) :
    m.outcome?.isSome = true ↔ m.stack = [] ∧ m.control.isOutcome = true := by
  obtain ⟨control, stack, s⟩ := m
  cases control <;> cases stack <;> simp [outcome?, Control.isOutcome]

theorem outcome?_eq_none_iff (m : Machine) :
    m.outcome? = none ↔ ¬(m.stack = [] ∧ m.control.isOutcome = true) := by
  rw [← Option.not_isSome_iff_eq_none, outcome?_isSome_iff]

theorem outcome?_eq_none_of_stack {m : Machine} {frame : Frame} {rest : List Frame}
    (h : m.stack = frame :: rest) : m.outcome? = none := by
  rw [outcome?_eq_none_iff, h]
  simp

theorem outcome?_eq_none_of_eval {m : Machine} {p : Program} (h : m.control = .eval p) :
    m.outcome? = none := by
  rw [outcome?_eq_none_iff, h]
  rintro ⟨-, hc⟩
  cases hc

/-! ### Steps and the stack -/

theorem stack_reply (stack : List Frame) (r : Except Fault Value × Session) :
    (reply stack r).stack = stack := by
  obtain ⟨_ | _, s⟩ := r <;> rfl

theorem stack_copy (v : Value) (stack : List Frame) (s : Session) :
    (copy v stack s).stack = stack := by
  unfold copy
  split
  · split <;> rfl
  · split <;> rfl
  · split <;> rfl
  · rfl

theorem suffix_get (id : Nat) (key : Value) (compute : Value → Program) (stack : List Frame)
    (s : Session) : stack <:+ (get id key compute stack s).stack := by
  unfold get
  split
  · unfold getStable
    split
    · exact List.suffix_rfl
    · exact List.suffix_rfl
    · exact List.suffix_cons ..
  · unfold getValue
    split
    · exact List.suffix_rfl
    · exact List.suffix_cons ..
    · exact (List.suffix_cons ..).trans (List.suffix_cons ..)
  · exact List.suffix_rfl

/-- A program is evaluated on top of the stack that it finds. -/
theorem suffix_begin (p : Program) (stack : List Frame) (s : Session) :
    stack <:+ (begin p stack s).stack := by
  cases p with
  | done | fail | store => exact List.suffix_rfl
  | bind | attempt | on => exact List.suffix_cons ..
  | perform c => exact ⟨[], (stack_reply ..).symm⟩
  | copy v => exact ⟨[], (stack_copy ..).symm⟩
  | get place key compute => exact suffix_get ..
  | timed label enabled body =>
    rw [begin, time]
    split
    · exact List.suffix_rfl
    · exact List.suffix_cons ..
    · exact List.suffix_rfl
  | view place mode key body =>
    rw [begin, openView]
    split
    · exact List.suffix_rfl
    · exact List.suffix_cons ..
  | peek place key =>
    rw [begin, peek]
    split
    · exact ⟨[], (stack_reply ..).symm⟩
    · split
      · exact List.suffix_rfl
      · exact List.suffix_cons ..
    · exact List.suffix_rfl
  | invoke code call =>
    rw [begin, invoke]
    split
    · exact List.suffix_rfl
    · split <;> exact List.suffix_rfl
    · exact List.suffix_rfl
  | reach | locate | resolve | fetch =>
    rw [begin]
    split <;> exact List.suffix_rfl

theorem stack_finish (id : Nat) (key : Spelled) (k : Key) (outcome : Except Fault Value)
    (stack : List Frame) (s : Session) : (finish id key k outcome stack s).stack = stack := by
  unfold finish
  split
  · dsimp only
    split <;> rfl
  · rfl

/-- An outcome is taken to the innermost frame, and to no other. -/
theorem stack_resume (v : Value) (frame : Frame) (stack : List Frame) (s : Session) :
    (resume v frame stack s).stack = stack := by
  cases frame with
  | computing id key k => exact stack_finish ..
  | storing id k =>
    rw [resume, deposit]
    split <;> rfl
  | _ => rfl

theorem stack_unwind (f : Fault) (frame : Frame) (stack : List Frame) (s : Session) :
    (unwind f frame stack s).stack = stack := by
  cases frame with
  | computing id key k => exact stack_finish ..
  | attempt kinds handler =>
    rw [unwind]
    split <;> rfl
  | _ => rfl

theorem step_resume {m : Machine} {frame : Frame} {rest : List Frame} {v : Value}
    (control : m.control = .give v) (stack : m.stack = frame :: rest) :
    m.step = resume v frame rest m.session := by
  rw [step, control, stack]

theorem step_unwind {m : Machine} {frame : Frame} {rest : List Frame} {f : Fault}
    (control : m.control = .raise f) (stack : m.stack = frame :: rest) :
    m.step = unwind f frame rest m.session := by
  rw [step, control, stack]

theorem step_perform {m : Machine} {c : Command} (control : m.control = .eval (.perform c)) :
    m.step = reply m.stack (m.session.perform c) := by
  rw [step, control]
  rfl

/-- A move from a machine whose innermost frame gets an outcome is a step. -/
theorem Move.eq_step {frame : Frame} {rest : List Frame} (h : Move m m')
    (hstack : m.stack = frame :: rest) : m' = m.step := by
  cases h with
  | step => rfl
  | next hend =>
    rw [outcome?_eq_none_of_stack hstack] at hend
    cases hend

/-- A move of a program that has yet to be evaluated is a step. -/
theorem Move.eq_step_of_eval {p : Program} (h : Move m m') (control : m.control = .eval p) :
    m' = m.step := by
  cases h with
  | step => rfl
  | next hend =>
    rw [outcome?_eq_none_of_eval control] at hend
    cases hend

/-- A step takes an outcome to the innermost frame. -/
theorem stack_step_of_isOutcome {m : Machine} {frame : Frame} {rest : List Frame}
    (hs : m.stack = frame :: rest) (hc : m.control.isOutcome = true) : m.step.stack = rest := by
  obtain ⟨control, stack, s⟩ := m
  obtain rfl : stack = frame :: rest := hs
  cases control with
  | eval p => cases hc
  | give v => exact stack_resume ..
  | raise f => exact stack_unwind ..

/-- What a program does before it hands its outcome to `base` leaves `base` alone. -/
theorem suffix_step {base : List Frame} {m : Machine} (hb : base <:+ m.stack)
    (h : ¬(m.stack = base ∧ m.control.isOutcome = true)) : base <:+ m.step.stack := by
  by_cases hc : m.control.isOutcome = true
  · -- the outcome goes to a frame above `base`
    cases hs : m.stack with
    | nil =>
      rw [hs, List.suffix_nil] at hb
      exact absurd ⟨hs.trans hb.symm, hc⟩ h
    | cons frame rest =>
      rw [stack_step_of_isOutcome hs hc]
      rw [hs] at hb h
      rcases List.suffix_cons_iff.mp hb with hb | hb
      · exact absurd ⟨hb.symm, hc⟩ h
      · exact hb
  · obtain ⟨control, stack, s⟩ := m
    cases control with
    | eval p => exact hb.trans (suffix_begin ..)
    | give v => exact absurd rfl hc
    | raise f => exact absurd rfl hc

/-! ### The end of a program -/

/-- The program that `m` is about to run hands its outcome to the frames `base` at `m'`. -/
inductive Ends (base : List Frame) : Machine → Machine → Prop where
  | here {m : Machine} (hs : m.stack = base) (hc : m.control.isOutcome = true) : Ends base m m
  | step {m m' : Machine} (h : ¬(m.stack = base ∧ m.control.isOutcome = true))
    (rest : Ends base m.step m') : Ends base m m'

namespace Ends

variable {base : List Frame} {m m' : Machine}

theorem stack_eq (h : Ends base m m') : m'.stack = base := by
  induction h with
  | here hs => exact hs
  | step _ _ ih => exact ih

theorem isOutcome (h : Ends base m m') : m'.control.isOutcome = true := by
  induction h with
  | here _ hc => exact hc
  | step _ _ ih => exact ih

/-- A program that has not ended takes a step. -/
theorem move (hb : base <:+ m.stack) (hne : ¬(m.stack = base ∧ m.control.isOutcome = true)) :
    Move m m.step := by
  refine .step ((outcome?_eq_none_iff m).mpr ?_)
  rintro ⟨hs, hc⟩
  rw [hs, List.suffix_nil] at hb
  exact hne ⟨hs.trans hb.symm, hc⟩

theorem leads (hb : base <:+ m.stack) (h : Ends base m m') : Leads m m' := by
  induction h with
  | here => exact .refl
  | step hne _ ih => exact .head (move hb hne) (ih (suffix_step hb hne))

/-- A program has one end. -/
theorem unique {m₁ m₂ : Machine} (h₁ : Ends base m m₁) (h₂ : Ends base m m₂) : m₁ = m₂ := by
  induction h₁ with
  | here hs hc =>
    cases h₂ with
    | here => rfl
    | step hne => exact absurd ⟨hs, hc⟩ hne
  | step hne _ ih =>
    cases h₂ with
    | here hs hc => exact absurd ⟨hs, hc⟩ hne
    | step _ rest => exact ih rest

/-- The end of a program that has `depth` frames below it, if it is found within `fuel` steps. -/
def find? (depth : Nat) : Nat → Machine → Option Machine
  | 0, _ => none
  | fuel + 1, m =>
    if m.stack.length = depth ∧ m.control.isOutcome = true then some m
    else find? depth fuel m.step

theorem of_find? (fuel : Nat) (hb : base <:+ m.stack)
    (h : find? base.length fuel m = some m') : Ends base m m' := by
  induction fuel generalizing m with
  | zero => cases h
  | succ fuel ih =>
    rw [find?] at h
    split at h
    · rename_i hend
      cases h
      exact .here (hb.eq_of_length hend.1.symm).symm hend.2
    · rename_i hend
      have hne : ¬(m.stack = base ∧ m.control.isOutcome = true) := by
        rintro ⟨hs, hc⟩
        exact hend ⟨congrArg List.length hs, hc⟩
      exact .step hne (ih (suffix_step hb hne) h)

/-- A program that is over in one step ends there. -/
theorem eq_step (h : Ends m.stack m m') (hc : m.control.isOutcome = false)
    (hs : m.step.stack = m.stack) (hc' : m.step.control.isOutcome = true) : m' = m.step := by
  have hne : ¬(m.stack = m.stack ∧ m.control.isOutcome = true) := by
    rw [hc]
    exact fun h => Bool.noConfusion h.2
  exact h.unique (.step hne (.here hs hc'))

/-- A program that has yet to be evaluated ends when its first step has led to the end. -/
theorem of_eval {p : Program} (h : Ends base m m') (hc : m.control = .eval p) :
    Ends base m.step m' := by
  cases h with
  | here _ houtcome =>
    rw [hc] at houtcome
    cases houtcome
  | step _ rest => exact rest

/-- A program that evaluates something on top of a frame goes on when that has ended. -/
theorem split {frame : Frame} (hb : frame :: base <:+ m.stack) (h : Ends base m m') :
    ∃ m₁, Ends (frame :: base) m m₁ ∧ Ends base m₁.step m' := by
  induction h with
  | here hs =>
    -- the frame stands on `base`, so `base` is not all there is
    have hlength := hb.length_le
    rw [hs, List.length_cons] at hlength
    omega
  | @step m m' hne rest ih =>
    by_cases hend : m.stack = frame :: base ∧ m.control.isOutcome = true
    · exact ⟨m, .here hend.1 hend.2, rest⟩
    · obtain ⟨m₁, hm₁, hm'⟩ := ih (suffix_step hb hend)
      exact ⟨m₁, .step hend hm₁, hm'⟩

end Ends

end Machine

end CheckedMemo
