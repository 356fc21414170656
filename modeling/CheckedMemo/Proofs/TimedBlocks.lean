import CheckedMemo.Proofs.EnvironmentSettings
import CheckedMemo.Proofs.Hooks
import CheckedMemo.Proofs.WriteOnlyJournal

/-!
# Timed blocks

Whether a block is timed is decided when it is entered: by its own choice, or else by the flag that
the environment holds then (`Environment.Decides`).  From there on a block is its body and nothing
else.  It ends exactly if its body does, with the same outcome and with all that the body has made
of the session, and if it is timed, its end is logged behind everything that the body has logged
(`ends_timed_iff`).

In a run, the blocks that are timed are entered and left like brackets: each is left while it is the
innermost one that is open (`Nested`, `History.nested`).  The journal has their ends in the order in
which the blocks are left, and no other event of that name but those that programs log by themselves
(`Move.filter_added`, `History.filter_added`).
-/

namespace CheckedMemo

namespace Environment

variable {env : Environment} {enabled : Option Bool} {on : Bool}

/-- Whether a block that is entered in an environment is timed: as it chooses itself, or else as the
flag for block timers says.  If there is neither, nothing is decided. -/
inductive Decides (env : Environment) : Option Bool → Bool → Prop where
  | choice (on : Bool) : Decides env (some on) on
  | flag {on : Bool} (h : env.HasFlag timingVariable on) : Decides env none on

theorem elim_timing_eq_ok_iff : enabled.elim env.timing .ok = .ok on ↔ env.Decides enabled on := by
  cases enabled with
  | none =>
    rw [Option.elim_none, timing, flag_eq_ok_iff]
    exact ⟨.flag, fun h => by cases h; assumption⟩
  | some b =>
    rw [Option.elim_some, Except.ok.injEq]
    constructor
    · rintro rfl
      exact .choice b
    · rintro ⟨⟩
      rfl

end Environment

/-- Whether an entry is an event with the name of those for the ends of timed blocks. -/
def Entry.isBlockEnd : Entry → Bool
  | .event e _ => e.name = "block_timer"
  | .mark _ => false

namespace Machine

variable {m m' n : Machine} {label : String} {enabled : Option Bool} {on : Bool} {body : Program}
  {base stack rest : List Frame} {s : Session}

/-! ### One block -/

/-- The flag of a block is decided when it is entered. -/
theorem step_timed (h : s.environment.Decides enabled on) :
    (⟨.eval (.timed label enabled body), stack, s⟩ : Machine).step =
      ⟨.eval body, Frame.timing label on ++ stack, s⟩ := by
  have hon : enabled.elim s.environment.timing .ok = .ok on :=
    Environment.elim_timing_eq_ok_iff.mpr h
  show time label enabled body stack s = _
  rw [time, hon]
  cases on <;> rfl

/-- A block whose flag is invalid is not entered, and nothing is logged. -/
theorem step_timed_invalid (h : ∀ b, ¬s.environment.HasFlag timingVariable b) :
    (⟨.eval (.timed label none body), stack, s⟩ : Machine).step =
      ⟨.raise (.badFlag timingVariable), stack, s⟩ := by
  have hflag : s.environment.timing = .error (.badFlag timingVariable) := by
    rw [Environment.timing, Environment.flag_eq_error_iff]
    exact ⟨h, rfl⟩
  show time label none body stack s = _
  rw [time, Option.elim_none, hflag]
  rfl

/-- A program does on top of some frames what it does without them. -/
theorem ends_load_iff {p : Program} : Ends base ⟨.eval p, base, s⟩ m' ↔
    ∃ n, Ends [] (load p s) n ∧ m' = ⟨n.control, base, n.session⟩ := by
  have hafter (s : Session) : s.after #[] = s := by rw [Session.after, Array.empty_append]
  have hplaced : (load p s).placed #[] base = ⟨.eval p, base, s⟩ := by
    rw [placed, hafter]
    rfl
  rw [← hplaced, ends_placed_iff]
  refine exists_congr fun n => and_congr_right fun hn => ?_
  rw [placed, hafter, hn.stack_eq, List.nil_append]

/-- A block ends when its body has. -/
theorem ends_timed (h : s.environment.Decides enabled on) (hn : Ends [] (load body s) n) :
    Ends stack ⟨.eval (.timed label enabled body), stack, s⟩
      ⟨n.control, stack, n.session.timed label on⟩ := by
  have hbase : stack <:+ Frame.timing label on ++ stack := List.suffix_append ..
  have hbody : Ends (Frame.timing label on ++ stack)
      ⟨.eval body, Frame.timing label on ++ stack, s⟩
      ⟨n.control, Frame.timing label on ++ stack, n.session⟩ := ends_load_iff.mpr ⟨n, hn, rfl⟩
  obtain ⟨outcome, houtcome⟩ := eq_ofOutcome hn.isOutcome
  have hleave := silent_timing outcome (List.suffix_refl stack) label on (s := n.session)
  rw [← houtcome] at hleave
  have henter : Silent stack ⟨.eval (.timed label enabled body), stack, s⟩ _ :=
    Silent.eval rfl rfl (step_timed h)
  rw [henter.ends_iff, (hbody.path.lower hbase List.suffix_rfl).ends_iff, hleave.ends_iff]
  exact .here rfl hn.isOutcome

/-- **A block is its body, and logs its end behind it if it is timed.** -/
theorem ends_timed_iff (h : s.environment.Decides enabled on) :
    Ends stack ⟨.eval (.timed label enabled body), stack, s⟩ m' ↔
      ∃ n, Ends [] (load body s) n ∧ m' = ⟨n.control, stack, n.session.timed label on⟩ := by
  constructor
  · intro hends
    have hbody := hends.of_eval rfl
    rw [step_timed h] at hbody
    obtain ⟨m₁, hm₁⟩ := hbody.exists_above (List.suffix_append ..) List.suffix_rfl
    obtain ⟨n, hn, -⟩ := ends_load_iff.mp hm₁
    exact ⟨n, hn, hends.unique (ends_timed h hn)⟩
  · rintro ⟨n, hn, rfl⟩
    exact ends_timed h hn

/-! ### Blocks that are open -/

/-- What a move does to the timed blocks. -/
inductive BlockMove where
  | enter (label : String)
  | leave (label : String)
  deriving DecidableEq, Repr

/-- What a machine does to the timed blocks in its next step: it enters one that is timed, or takes
an outcome out of one. -/
def blockMove? (m : Machine) : Option BlockMove :=
  match m.control, m.stack with
  | .eval (.timed label enabled _), _ =>
    match enabled.elim m.session.environment.timing .ok with
    | .ok true => some (.enter label)
    | _ => none
  | .give _, .timer label :: _ | .raise _, .timer label :: _ => some (.leave label)
  | _, _ => none

/-- The labels of the timed blocks that are open, innermost first. -/
def openBlocks (stack : List Frame) : List String :=
  stack.filterMap fun
    | .timer label => some label
    | _ => none

/-- The blocks that are open, innermost first, before and after some moves: a block that is entered
becomes the innermost one, and a block that is left has been. -/
inductive Nested : List String → List BlockMove → List String → Prop where
  | nil (blocks : List String) : Nested blocks [] blocks
  | enter {blocks blocks' : List String} {moves : List BlockMove} {label : String}
    (h : Nested (label :: blocks) moves blocks') : Nested blocks (.enter label :: moves) blocks'
  | leave {blocks blocks' : List String} {moves : List BlockMove} {label : String}
    (h : Nested blocks moves blocks') : Nested (label :: blocks) (.leave label :: moves) blocks'

theorem Nested.trans {blocks blocks' blocks'' : List String} {moves moves' : List BlockMove}
    (h : Nested blocks moves blocks') (h' : Nested blocks' moves' blocks'') :
    Nested blocks (moves ++ moves') blocks'' := by
  induction h with
  | nil => exact h'
  | enter _ ih => exact .enter (ih h')
  | leave _ ih => exact .leave (ih h')

theorem blockMove?_eq_leave_iff : m.blockMove? = some (.leave label) ↔ LeavesBlock m label := by
  obtain ⟨control, stack, s⟩ := m
  constructor
  · intro h
    unfold blockMove? at h
    split at h
    · split at h <;> cases h
    · rename_i hcontrol hstack
      cases h
      obtain rfl : control = _ := hcontrol
      exact ⟨rfl, _, hstack⟩
    · rename_i hcontrol hstack
      cases h
      obtain rfl : control = _ := hcontrol
      exact ⟨rfl, _, hstack⟩
    · cases h
  · rintro ⟨hc, rest, rfl : stack = _⟩
    cases control with
    | eval p => cases hc
    | give v | raise f => rfl

theorem blockMove?_of_isOutcome (hc : m.control.isOutcome = true)
    (h : ∀ label, ¬LeavesBlock m label) : m.blockMove? = none := by
  obtain ⟨control, stack, s⟩ := m
  cases control with
  | eval p => cases hc
  | give v | raise f =>
    cases stack with
    | nil => rfl
    | cons frame rest =>
      cases frame with
      | timer label => exact absurd ⟨rfl, rest, rfl⟩ (h label)
      | _ => rfl

theorem blockMove?_of_eval {p : Program} (control : m.control = .eval p)
    (h : ∀ label enabled body, p ≠ .timed label enabled body) : m.blockMove? = none := by
  obtain ⟨control', stack, s⟩ := m
  obtain rfl : control' = .eval p := control
  cases p with
  | timed label enabled body => exact absurd rfl (h label enabled body)
  | _ => rfl

/-! ### Steps and the blocks that are open -/

theorem openBlocks_get (id : Nat) (key : Value) (compute : Value → Program) :
    openBlocks (get id key compute stack s).stack = openBlocks stack := by
  unfold get
  split
  · unfold getStable
    split <;> rfl
  · unfold getValue
    split <;> rfl
  · rfl

/-- A program that starts enters no block, unless it is one. -/
theorem openBlocks_begin {p : Program} (h : ∀ label enabled body, p ≠ .timed label enabled body) :
    openBlocks (begin p stack s).stack = openBlocks stack := by
  cases p with
  | timed label enabled body => exact absurd rfl (h label enabled body)
  | done | fail | store | bind | attempt | on => rfl
  | perform c => rw [begin, stack_reply]
  | copy v => rw [begin, stack_copy]
  | get place key compute => exact openBlocks_get ..
  | view place mode key body =>
    rw [begin, openView]
    split <;> rfl
  | peek place key =>
    rw [begin, peek]
    split
    · rw [stack_reply]
    · split <;> rfl
    · rfl
  | invoke code call =>
    rw [begin, invoke]
    split
    · rfl
    · split <;> rfl
    · rfl
  | reach | locate | resolve | fetch =>
    rw [begin]
    split <;> rfl

/-- A block that is timed becomes the innermost one that is open, and no other block is entered. -/
theorem nested_time (label : String) (enabled : Option Bool) (body : Program) :
    Nested (openBlocks stack)
      (blockMove? ⟨.eval (.timed label enabled body), stack, s⟩).toList
      (openBlocks (time label enabled body stack s).stack) := by
  unfold blockMove? time
  dsimp only
  cases enabled.elim s.environment.timing .ok with
  | error f => exact .nil _
  | ok on =>
    cases on with
    | false => exact .nil _
    | true => exact .enter (.nil _)

/-- A program that starts enters a block if it is one that is timed. -/
theorem nested_begin (p : Program) :
    Nested (openBlocks stack) (blockMove? ⟨.eval p, stack, s⟩).toList
      (openBlocks (begin p stack s).stack) := by
  by_cases htimed : ∃ label enabled body, p = .timed label enabled body
  · obtain ⟨label, enabled, body, rfl⟩ := htimed
    exact nested_time ..
  · have hother (label : String) (enabled : Option Bool) (body : Program) :
        p ≠ .timed label enabled body := fun h => htimed ⟨label, enabled, body, h⟩
    rw [blockMove?_of_eval rfl hother, openBlocks_begin hother]
    exact .nil _

/-- An outcome leaves the block that is innermost if the innermost frame is a block's. -/
theorem nested_of_isOutcome (hc : m.control.isOutcome = true) :
    Nested (openBlocks m.stack) m.blockMove?.toList (openBlocks m.step.stack) := by
  by_cases hleaves : ∃ label, LeavesBlock m label
  · obtain ⟨label, hleaves⟩ := hleaves
    obtain ⟨-, rest, hs⟩ := id hleaves
    rw [blockMove?_eq_leave_iff.mpr hleaves, stack_step_of_isOutcome hs hc, hs]
    exact .leave (.nil _)
  · have hnone : ∀ label, ¬LeavesBlock m label := not_exists.mp hleaves
    have hsame : openBlocks m.step.stack = openBlocks m.stack := by
      cases hs : m.stack with
      | nil => rw [step_eq_self ((outcome?_isSome_iff m).mpr ⟨hs, hc⟩), hs]
      | cons frame rest =>
        rw [stack_step_of_isOutcome hs hc]
        cases frame with
        | timer label => exact absurd ⟨hc, rest, hs⟩ (hnone label)
        | _ => rfl
    rw [blockMove?_of_isOutcome hc hnone, hsame]
    exact .nil _

/-- A step enters a block, leaves the innermost one that is open, or does neither. -/
theorem nested_step (m : Machine) :
    Nested (openBlocks m.stack) m.blockMove?.toList (openBlocks m.step.stack) := by
  obtain ⟨control, stack, s⟩ := m
  cases control with
  | eval p => exact nested_begin p
  | give v | raise f => exact nested_of_isOutcome rfl

theorem blockMove?_of_outcome? (h : m.outcome?.isSome = true) : m.blockMove? = none := by
  obtain ⟨hs, hc⟩ := (outcome?_isSome_iff m).mp h
  refine blockMove?_of_isOutcome hc ?_
  rintro label ⟨-, rest, hs'⟩
  cases hs.symm.trans hs'

theorem Move.nested (h : Move n m) :
    Nested (openBlocks n.stack) n.blockMove?.toList (openBlocks m.stack) := by
  cases h with
  | step => exact nested_step n
  | next hend p =>
    rw [blockMove?_of_outcome? hend, ((outcome?_isSome_iff n).mp hend).1]
    exact .nil _

/-- The blocks of a session are entered and left like brackets. -/
theorem History.nested {moves : List (Machine × Machine)} (h : History m moves m') :
    Nested (openBlocks m.stack) (moves.filterMap fun n => n.1.blockMove?)
      (openBlocks m'.stack) := by
  induction h with
  | here => exact .nil _
  | @move moves n n' _ hmove ih =>
    rw [List.filterMap_append, List.filterMap_eq_flatMap_toList _ [(n, n')], List.flatMap_singleton]
    exact ih.trans hmove.nested

/-! ### What is logged for them -/

/-- The entry for the end of a block, which tells the label of the block and how long it took. -/
def blockEnd (label : String) (sink : Sink) : Entry :=
  .event
    { logger := "pinned_memo.timing"
      level := .debug
      name := "block_timer"
      fields := [("label", .text label), ("elapsed_ms", .duration)] } sink

/-- The entry for the block that a machine is about to leave. -/
def blockEnd? (m : Machine) : Option Entry :=
  match m.blockMove? with
  | some (.leave label) => some (blockEnd label m.session.sink)
  | _ => none

/-- Whether the program itself is about to log an event. -/
def logsItself (m : Machine) : Bool :=
  match m.control with
  | .eval (.perform (.settings (.log _))) => true
  | _ => false

/-- The entries that moves add to the journal, besides the events that programs log by
themselves. -/
def addedBesides (moves : List (Machine × Machine)) : List Entry :=
  (moves.filter fun n => !n.1.logsItself).flatMap fun n => added n.1 n.2

/-- The end of a block is logged when it is left, and at no other time but by the program itself. -/
theorem filter_added_step (hitself : m.logsItself = false) :
    (added m m.step).filter Entry.isBlockEnd = m.blockEnd?.toList := by
  by_cases hleaves : ∃ label, LeavesBlock m label
  · obtain ⟨label, hleaves⟩ := hleaves
    obtain ⟨hc, rest, hs⟩ := id hleaves
    have hadded : added m m.step = [blockEnd label m.session.sink] :=
      added_of_journal (by rw [step_timer hc hs]; rfl)
    rw [hadded, blockEnd?, blockMove?_eq_leave_iff.mpr hleaves]
    rfl
  · have hnone : m.blockEnd? = none := by
      unfold blockEnd?
      split
      · rename_i label hmove
        exact absurd ⟨label, blockMove?_eq_leave_iff.mp hmove⟩ hleaves
      · rfl
    rw [hnone, Option.toList_none]
    rcases step_journal_cases m with ⟨es, hes, hnotice⟩ | hleave | ⟨id, hmiss⟩ | ⟨e, control⟩
    · rw [added, hes, ← Array.length_toList, List.drop_left, List.filter_eq_nil_iff]
      rintro (seen | ⟨e, sink⟩) he
      · exact Bool.false_ne_true
      · have hname := (hnotice e sink he).2.name_ne.2
        simpa [Entry.isBlockEnd] using hname
    · exact absurd hleave hleaves
    · obtain ⟨place, key, compute, r, shown, -, -, -, -, hjournal⟩ := hmiss
      rw [added_of_journal hjournal]
      rfl
    · rw [logsItself, control] at hitself
      cases hitself

theorem Move.filter_added (h : Move n m) (hitself : n.logsItself = false) :
    (added n m).filter Entry.isBlockEnd = n.blockEnd?.toList := by
  cases h with
  | step => exact filter_added_step hitself
  | next hend p =>
    have hadded : added n (load p n.session) = [] := by
      rw [added]
      exact List.drop_eq_nil_of_le (Nat.le_of_eq (Array.length_toList ..))
    rw [hadded, blockEnd?, blockMove?_of_outcome? hend]
    rfl

theorem blockEnd?_of_logsItself (h : m.logsItself = true) : m.blockEnd? = none := by
  unfold logsItself at h
  split at h
  · rename_i e control
    rw [blockEnd?, blockMove?_of_eval control]
    rintro _ _ _ ⟨⟩
  · cases h

/-- **The ends of blocks are logged in the order in which the blocks are left.**  What programs log
by themselves apart, nothing else of that name is logged. -/
theorem History.filter_added {moves : List (Machine × Machine)} (h : History m moves m') :
    (addedBesides moves).filter Entry.isBlockEnd = moves.filterMap fun n => n.1.blockEnd? := by
  unfold addedBesides
  induction h with
  | here => rfl
  | @move moves n n' _ hmove ih =>
    rw [List.filter_append, List.flatMap_append, List.filter_append, ih, List.filterMap_append,
      List.filterMap_eq_flatMap_toList _ [(n, n')], List.flatMap_singleton]
    congr 1
    cases hitself : n.logsItself with
    | true =>
      rw [blockEnd?_of_logsItself hitself]
      simp [hitself]
    | false => simpa [hitself] using hmove.filter_added hitself

/-! ### Main statement -/

/-- **Timed blocks are transparent, and their ends are logged innermost first.**  A block that
leaves it open whether it is timed, in an environment whose flag is invalid, fails with a bad value:
its body is not run, and nothing is logged.  Otherwise it is decided on entry whether the block is
timed, by the block itself or else by that one variable, and the body is run in the session that
the block has found.  The block ends exactly if the body does, with the same value or the same
fault, and leaves what the body has left; if it is timed, one event with its label is logged behind
all that the body has logged, and otherwise none.

In any run, whatever is raised or done to the environment on the way, the blocks that are timed are
entered and left like brackets.  The journal of the run is what its moves have added, and the events
among it of the name of a block's end are those of the blocks that are left, in that order, besides
what programs log by themselves. -/
theorem timed_blocks_transparent (label : String) (enabled : Option Bool) (body : Program)
    (stack : List Frame) (s : Session) :
    (enabled = none → (∀ b, ¬s.environment.HasFlag timingVariable b) →
      (Fault.badFlag timingVariable).kind = .badValue ∧
      (⟨.eval (.timed label enabled body), stack, s⟩ : Machine).step =
        ⟨.raise (.badFlag timingVariable), stack, s⟩) ∧
    (∀ on, s.environment.Decides enabled on →
      (⟨.eval (.timed label enabled body), stack, s⟩ : Machine).step =
        ⟨.eval body, Frame.timing label on ++ stack, s⟩ ∧
      ∀ m', Ends stack ⟨.eval (.timed label enabled body), stack, s⟩ m' ↔
        ∃ n, Ends [] (load body s) n ∧ m' = ⟨n.control, stack, n.session.timed label on⟩) ∧
    (∀ env : Environment, env.get? timingVariable = s.environment.get? timingVariable →
      ∀ on, env.Decides enabled on ↔ s.environment.Decides enabled on) ∧
    ∀ m moves m', History m moves m' →
      Nested (openBlocks m.stack) (moves.filterMap fun n => n.1.blockMove?)
        (openBlocks m'.stack) ∧
      m'.session.journal.toList =
        m.session.journal.toList ++ moves.flatMap (fun n => added n.1 n.2) ∧
      (addedBesides moves).filter Entry.isBlockEnd = moves.filterMap fun n => n.1.blockEnd? := by
  refine ⟨?_, fun on hon => ⟨step_timed hon, fun m' => ends_timed_iff hon⟩, fun env henv on => ?_,
    fun m moves m' h => ⟨h.nested, h.journal_eq, h.filter_added⟩⟩
  · rintro rfl hinvalid
    exact ⟨rfl, step_timed_invalid hinvalid⟩
  · rw [← Environment.elim_timing_eq_ok_iff, ← Environment.elim_timing_eq_ok_iff,
      Environment.timing_eq_of_get? henv]

/-- Makes the flag for block timers invalid, turns them off in a block of its own, and fails in a
further block there. -/
def turningOff : Program :=
  .andThen (.perform (.settings (.setEnvironment [(timingVariable, some "off")]))) <|
    .timed "inner" (some true) <|
      .andThen (.perform (.settings (.setEnvironment [(timingVariable, some "0")]))) <|
        .timed "unseen" none (.fail { kind := .exhausted })

/-- A session in which the flag for block timers has some text. -/
def underFlag (text : String) : Session := .start .events [(timingVariable, some text)]

/-- The machine that has turned timers off. -/
def havingTurnedOff : Machine := (load turningOff (underFlag " 1\t")).run 12

theorem timed_blocks_transparent_turningOff :
    Ends [] (load (.timed "outer" none turningOff) (underFlag " 1\t"))
      ⟨havingTurnedOff.control, [], havingTurnedOff.session.timed "outer" true⟩ ∧
    havingTurnedOff.outcome? = some (.error (.thrown { kind := .exhausted })) ∧
    havingTurnedOff.session.journal.toList = [blockEnd "inner" .collected] ∧
    (havingTurnedOff.session.timed "outer" true).journal.toList =
      [blockEnd "inner" .collected, blockEnd "outer" .collected] ∧
    (load (.timed "outer" none turningOff) (underFlag "off")).step =
      ⟨.raise (.badFlag timingVariable), [], underFlag "off"⟩ ∧
    ((underFlag " 1\t").environment.change [(jsonVariable, some "2")]).Decides none true ∧
    ∃ moves, History (load (.timed "outer" none turningOff) (underFlag " 1\t")) moves
        ((load (.timed "outer" none turningOff) (underFlag " 1\t")).run 14) ∧
      Nested [] (moves.filterMap fun n => n.1.blockMove?) [] ∧
      moves.flatMap (fun n => added n.1 n.2) =
        [blockEnd "inner" .collected, blockEnd "outer" .collected] ∧
      (addedBesides moves).filter Entry.isBlockEnd = moves.filterMap fun n => n.1.blockEnd? := by
  have hinvalid : ∀ b, ¬(underFlag "off").environment.HasFlag timingVariable b := by
    intro b
    cases b <;> decide
  have hon : (underFlag " 1\t").environment.Decides none true := .flag (by decide)
  have hbody : Ends [] (load turningOff (underFlag " 1\t")) havingTurnedOff :=
    .of_find? 13 (List.nil_suffix ..) rfl
  obtain ⟨hfails, -⟩ := timed_blocks_transparent "outer" none turningOff [] (underFlag "off")
  obtain ⟨-, hends, halone, hruns⟩ :=
    timed_blocks_transparent "outer" none turningOff [] (underFlag " 1\t")
  obtain ⟨moves, hmoves⟩ := Leads.exists_history
    (leads_run 14 (load (.timed "outer" none turningOff) (underFlag " 1\t")))
  obtain ⟨hnested, hjournal, hlogged⟩ := hruns _ _ _ hmoves
  have hjson := halone ((underFlag " 1\t").environment.change [(jsonVariable, some "2")]) rfl true
  exact ⟨((hends true hon).2 _).mpr ⟨_, hbody, rfl⟩, rfl, rfl, rfl, (hfails rfl hinvalid).2,
    hjson.mpr hon, moves, hmoves, hnested, hjournal.symm, hlogged⟩

end Machine

end CheckedMemo
