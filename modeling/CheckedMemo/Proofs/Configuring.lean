import CheckedMemo.Proofs.Counters
import CheckedMemo.Proofs.Lines

/-!
# Log output and the configuration of logging

A call that configures logging succeeds or changes nothing.  The configuration in force is that of
the last call that succeeded (`inForce`), for no other step touches the sink (`sink_step`,
`History.sink_eq`).  So what is written for an event is decided by the configuration in force when
it is logged, however calls that succeed, calls that fail, changes of the environment and events
follow each other (`output_follows_configuration`).
-/

namespace CheckedMemo

/-! ### Configurations that are asked for -/

theorem Level.read?_eq_some_iff {s : String} {l : Level} :
    Level.read? s = some l ↔ Text.capitalize s = l.name := by
  refine ⟨fun h => ?_, fun h => ?_⟩
  · unfold read? ofName? at h
    have hname := List.find?_some h
    exact (of_decide_eq_true hname).symm
  · rw [Level.read?, h, Level.ofName?_name]

theorem Logging.ofText_of_capitalize {level : String} {l : Level}
    (h : Text.capitalize level = l.name) (json : Bool) :
    Logging.ofText level json = .ok ⟨l, json⟩ := by
  rw [Logging.ofText, Level.read?_eq_some_iff.mpr h]

theorem Logging.ofText_of_ne {level : String} (h : ∀ l : Level, Text.capitalize level ≠ l.name)
    (json : Bool) : Logging.ofText level json = .error (.badLevel level) := by
  have hnone : Level.read? level = none := by
    cases hl : Level.read? level with
    | none => rfl
    | some l => exact absurd (Level.read?_eq_some_iff.mp hl) (h l)
  rw [Logging.ofText, hnone]

/-- The level of settings that were read is the name of a level. -/
theorem Environment.exists_level {env : Environment} {t : Settings} (h : env.settings = .ok t) :
    ∃ l : Level, t.level = l.name := by
  obtain ⟨l, -, h⟩ := exists_of_bind_eq_ok h
  obtain ⟨json, -, h⟩ := exists_of_bind_eq_ok h
  obtain ⟨timing, -, h⟩ := exists_of_bind_eq_ok h
  cases h
  exact ⟨l, rfl⟩

theorem Level.capitalize_name (l : Level) : Text.capitalize l.name = l.name := by
  cases l <;> decide

/-- A fault that tells of a bad value, for which nothing is logged. -/
def Fault.IsBadValue (f : Fault) : Prop := f.kind = .badValue ∧ f.event? = none

theorem Environment.isBadValue_of_flag {env : Environment} {name : String} {f : Fault}
    (h : env.flag name = .error f) : f.IsBadValue := by
  unfold Environment.flag at h
  split at h <;> cases h
  exact ⟨rfl, rfl⟩

theorem Environment.isBadValue_of_settings {env : Environment} {f : Fault}
    (h : env.settings = .error f) : f.IsBadValue := by
  rcases cases_of_bind_eq_error h with h | ⟨l, -, h⟩
  · unfold Environment.level at h
    split at h <;> cases h
    exact ⟨rfl, rfl⟩
  · rcases cases_of_bind_eq_error h with h | ⟨json, -, h⟩
    · exact isBadValue_of_flag h
    · rcases cases_of_bind_eq_error h with h | ⟨timing, -, h⟩
      · exact isBadValue_of_flag h
      · cases h

theorem Session.isBadValue_of_requested {s : Session} {c : Command} {f : Fault}
    (h : s.requested? c = some (.error f)) : f.IsBadValue := by
  have hlevel {level : String} {json : Bool} (h : Logging.ofText level json = .error f) :
      f.IsBadValue := by
    unfold Logging.ofText at h
    split at h <;> cases h
    exact ⟨rfl, rfl⟩
  unfold requested? at h
  split at h
  · exact hlevel (Option.some.inj h)
  · rcases cases_of_bind_eq_error (Option.some.inj h) with h | ⟨t, -, h⟩
    · exact Environment.isBadValue_of_settings h
    · exact hlevel h
  · cases h

namespace Machine

variable {m m' : Machine}

/-! ### Steps that configure logging -/

/-- The configuration of logging that a machine asks for in its next step, if it does; a fault if it
is refused. -/
def requested? (m : Machine) : Option (Except Fault Logging) :=
  match m.control with
  | .eval (.perform c) => m.session.requested? c
  | _ => none

/-- The configuration that the next step of a machine puts in force: that of a call that
succeeds. -/
def configures? (m : Machine) : Option Logging := m.requested?.bind Except.toOption

theorem step_of_requested {r : Except Fault Logging} (h : m.requested? = some r) :
    m.step = reply m.stack (m.session.configured r) := by
  unfold requested? at h
  split at h
  · rename_i control
    rw [step_perform control, Session.perform_of_requested h]
  · cases h

/-- A call that succeeds has the sink write by its configuration, and gives the name of its
level. -/
theorem step_of_requested_ok {l : Logging} (h : m.requested? = some (.ok l)) :
    m.configures? = some l ∧ m.step = ⟨.give (.text l.level.name), m.stack,
      { m.session with sink := m.session.sink.configure l }⟩ := by
  refine ⟨?_, step_of_requested h⟩
  rw [configures?, h]
  rfl

/-- A call that fails does so for a bad value, and leaves the session as it is. -/
theorem step_of_requested_error {f : Fault} (h : m.requested? = some (.error f)) :
    m.configures? = none ∧ f.kind = .badValue ∧ m.step = ⟨.raise f, m.stack, m.session⟩ := by
  have hbad : f.IsBadValue := by
    unfold requested? at h
    split at h
    · exact Session.isBadValue_of_requested h
    · cases h
  refine ⟨by rw [configures?, h]; rfl, hbad.1, ?_⟩
  -- the refusal is not logged, so the journal is as it was
  rw [step_of_requested h]
  show refuse f m.stack m.session = _
  rw [refuse, Session.report, hbad.2]

theorem requested?_of_configure {level : String} {json : Bool}
    (control : m.control = .eval (.perform (.settings (.configure level json)))) :
    m.requested? = some (Logging.ofText level json) := by
  rw [requested?, control]
  rfl

theorem requested?_of_configureFromEnvironment
    (control : m.control = .eval (.perform (.settings .configureFromEnvironment))) :
    m.requested? = some
      (m.session.environment.settings >>= fun t => Logging.ofText t.level t.json) := by
  rw [requested?, control]
  rfl

/-! ### Steps and the sink -/

variable (stack : List Frame) (s : Session)

theorem sink_refuse (f : Fault) : (refuse f stack s).session.sink = s.sink := by
  obtain ⟨_, _, h⟩ := session_refuse_eq stack s f
  rw [h]

/-- A program that starts leaves the sink as it is, unless it is a command. -/
theorem sink_begin {p : Program} (h : ∀ c, p ≠ .perform c) :
    (begin p stack s).session.sink = s.sink := by
  cases p with
  | perform c => exact absurd rfl (h c)
  | done | fail | bind | attempt | on | store => rfl
  | get place key compute =>
    obtain ⟨_, _, h⟩ := session_get_eq stack s place.id key compute
    rw [begin, h]
  | peek place key =>
    obtain ⟨_, _, h⟩ := session_peek_eq stack s place.id key
    rw [begin, h]
  | copy v => rcases session_copy_cases stack s v with h | ⟨_, h⟩ <;> rw [begin, h]
  | timed label enabled body =>
    rw [begin, time]
    split
    · exact sink_refuse ..
    · rfl
    · rfl
  | reach target next =>
    rw [begin]
    split
    · rename_i hlocate
      rcases Session.locate_eq_ok hlocate with ⟨rfl, -⟩ | ⟨id, hid⟩
      · rfl
      · obtain ⟨c, -, -, ⟨-, rfl⟩ | ⟨-, -, rfl⟩⟩ := Session.locateConfined_eq_ok hid <;> rfl
    · exact sink_refuse ..
  | view place mode key body =>
    rw [begin, openView]
    split
    · exact sink_refuse ..
    · rename_i hopened
      obtain ⟨r, -, -, rfl⟩ := Session.openView_eq_ok hopened
      rfl
  | invoke code call =>
    rw [begin, invoke]
    split
    · rfl
    · split
      · rfl
      · exact sink_refuse ..
    · exact sink_refuse ..
  | locate | resolve | fetch =>
    rw [begin]
    split
    · rfl
    · exact sink_refuse ..

/-- **The sink is configured by a call that succeeds, and by nothing else.** -/
theorem sink_step (m : Machine) :
    m.step.session.sink = m.configures?.elim m.session.sink m.session.sink.configure := by
  cases hrequest : m.requested? with
  | some r =>
    cases r with
    | ok l =>
      obtain ⟨hconfigures, hstep⟩ := step_of_requested_ok hrequest
      rw [hconfigures, hstep]
      rfl
    | error f =>
      obtain ⟨hconfigures, -, hstep⟩ := step_of_requested_error hrequest
      rw [hconfigures, hstep]
      rfl
  | none =>
    -- every other step leaves the sink alone
    rw [configures?, hrequest]
    obtain ⟨control, stack, s⟩ := m
    show (step ⟨control, stack, s⟩).session.sink = s.sink
    cases control with
    | give v =>
      cases stack with
      | nil => rfl
      | cons frame rest =>
        obtain ⟨_, _, _, h⟩ := session_resume_eq rest s v frame
        show (resume v frame rest s).session.sink = s.sink
        rw [h]
    | raise f =>
      cases stack with
      | nil => rfl
      | cons frame rest =>
        obtain ⟨_, _, _, h⟩ := session_unwind_eq rest s f frame
        show (unwind f frame rest s).session.sink = s.sink
        rw [h]
    | eval p =>
      by_cases hp : ∃ c, p = .perform c
      · obtain ⟨c, rfl⟩ := hp
        obtain ⟨_, h⟩ := session_reply_eq stack (s.perform c)
        rw [step_perform rfl, h]
        exact Session.sink_perform hrequest
      · exact sink_begin stack s fun c hc => hp ⟨c, hc⟩

/-! ### Whole sessions -/

/-- The configuration in force after some moves: that of the last call that succeeded. -/
def inForce (moves : List (Machine × Machine)) : Option Logging :=
  moves.reverse.findSome? fun n => n.1.configures?

theorem inForce_append (moves : List (Machine × Machine)) (n n' : Machine) :
    inForce (moves ++ [(n, n')]) = n.configures?.or (inForce moves) := by
  rw [inForce, List.reverse_append, List.findSome?_append]
  cases h : n.configures? <;> simp [inForce, h]

theorem configures?_eq_none (h : m.outcome?.isSome = true) : m.configures? = none := by
  obtain ⟨-, hc⟩ := (outcome?_isSome_iff m).mp h
  obtain ⟨control, stack, s⟩ := m
  cases control with
  | eval p => cases hc
  | give | raise => rfl

/-- Events are written by the configuration in force, or nobody sees them. -/
theorem History.sink_eq {environment : List (String × Option String)} {p : Program}
    {moves : List (Machine × Machine)}
    (h : History (load p (.start .lines environment)) moves m) :
    m.session.sink = .under (inForce moves) := by
  induction h with
  | here => rfl
  | @move moves n n' _ hmove ih =>
    rw [inForce_append]
    cases hmove with
    | step =>
      -- a configuration replaces the one in force, whichever that is
      rw [sink_step, ih]
      cases n.configures? with
      | none => rfl
      | some l => cases inForce moves <;> rfl
    | next hend q =>
      rw [configures?_eq_none hend]
      exact ih

/-- The entries that a move adds to the journal. -/
def added (n n' : Machine) : List Entry :=
  n'.session.journal.toList.drop n.session.journal.size

theorem Move.logs {n n' : Machine} (h : Move n n') :
    Session.Logs n.CanLog n.session n'.session := by
  cases h with
  | step => exact step_logs n
  | next => exact .of_eq rfl

theorem Move.journal_eq {n n' : Machine} (h : Move n n') :
    n'.session.journal.toList = n.session.journal.toList ++ added n n' := by
  obtain ⟨es, hes, -⟩ := h.logs
  rw [added, hes, ← Array.length_toList, List.drop_left]

/-- An event of a move goes into the journal with the sink that the move finds. -/
theorem Move.of_mem_added {n n' : Machine} (h : Move n n') {e : Event} {sink : Sink}
    (he : .event e sink ∈ added n n') : sink = n.session.sink ∧ n.CanLog e := by
  obtain ⟨es, hes, hlogs⟩ := h.logs
  rw [added, hes, ← Array.length_toList, List.drop_left] at he
  exact hlogs e sink he

/-- The journal of a session is what its moves have added, in their order. -/
theorem History.journal_eq {moves : List (Machine × Machine)} (h : History m moves m') :
    m'.session.journal.toList =
      m.session.journal.toList ++ moves.flatMap fun n => added n.1 n.2 := by
  induction h with
  | here => simp
  | move _ hmove ih => rw [hmove.journal_eq, ih]; simp

/-- Each move of a history is made where the moves before it lead to. -/
theorem History.split {moves past future : List (Machine × Machine)} {n n' : Machine}
    (h : History m moves m') (hmoves : moves = past ++ (n, n') :: future) :
    History m past n ∧ Move n n' := by
  induction h generalizing future with
  | here => simp at hmoves
  | move h hmove ih =>
    rcases future.eq_nil_or_concat with rfl | ⟨rest, last, rfl⟩
    · obtain ⟨rfl, hlast⟩ := List.append_inj' hmoves rfl
      cases hlast
      exact ⟨h, hmove⟩
    · rw [List.concat_eq_append, ← List.cons_append, ← List.append_assoc] at hmoves
      exact ih (List.append_inj' hmoves rfl).1

/-! ### Main statement -/

theorem CanLog.cases {e : Event} (h : m.CanLog e) :
    e.OfLibrary ∨ m.control = .eval (.perform (.settings (.log e))) ∧
      ∃ lines, e.lines m.session.sink = .ok lines := by
  cases h with
  | routine h => exact .inl (.routine h)
  | miss label key => exact .inl (.miss label key)
  | program control hlines => exact .inr ⟨control, _, hlines⟩

theorem added_of_journal {n : Machine} {entry : Entry}
    (h : n.session.journal = m.session.journal.push entry) : added m n = [entry] := by
  rw [added, h, Array.toList_push, ← Array.length_toList, List.drop_left]

/-- An event of the program that can be rendered goes into the journal. -/
theorem added_of_log {e : Event} {lines : List Line}
    (control : m.control = .eval (.perform (.settings (.log e))))
    (h : e.lines m.session.sink = .ok lines) : added m m.step = [.event e m.session.sink] := by
  rcases m.session.perform_log_cases e with ⟨-, hperform⟩ | ⟨f, hf, -⟩
  · exact added_of_journal (by rw [step_perform control, hperform]; rfl)
  · cases hf.symm.trans h

theorem shown_of_lines {e : Event} {sink : Sink} {lines : List Line}
    (h : e.lines sink = .ok lines) :
    (Entry.event e sink).shown .lines = lines.map .line := by
  rw [Entry.shown, h]
  rfl

/-- **Log output follows the last successful configuration.**  What a session has in its journal is
what its moves have added, in their order.  The events among it are those of the library, which
never break their line, and those that the program logs by itself; and what is shown of an event are
the lines that the configuration in force has written for it.  An event of the program with nothing
that breaks its line is never refused.  A call that configures logging puts its level and its choice
of output in force, if its text is the name of a level in letters of either case; else it fails for
a bad value and leaves the session as it is.  So does a call that takes both from the
environment. -/
theorem output_follows_configuration {environment : List (String × Option String)} {p : Program}
    {moves : List (Machine × Machine)}
    (h : History (load p (.start .lines environment)) moves m) :
    m.session.journal.toList = moves.flatMap (fun n => added n.1 n.2) ∧
    (∀ past n n' future, moves = past ++ (n, n') :: future →
      ∀ e sink, .event e sink ∈ added n n' →
        (e.OfLibrary ∧ e.Unbroken ∨ n.control = .eval (.perform (.settings (.log e)))) ∧
        ∃ lines, (Entry.event e sink).shown .lines = lines.map .line ∧
          e.WrittenUnder (inForce past) lines) ∧
    (∀ e, m.control = .eval (.perform (.settings (.log e))) → e.Unbroken →
      added m m.step = [.event e m.session.sink]) ∧
    (∀ level json, m.control = .eval (.perform (.settings (.configure level json))) →
      (∀ l : Level, Text.capitalize level = l.name →
        m.configures? = some ⟨l, json⟩ ∧ m.step.control = .give (.text l.name)) ∧
      ((∀ l : Level, Text.capitalize level ≠ l.name) →
        m.configures? = none ∧ (Fault.badLevel level).kind = .badValue ∧
          m.step = ⟨.raise (.badLevel level), m.stack, m.session⟩)) ∧
    (m.control = .eval (.perform (.settings .configureFromEnvironment)) →
      (∀ t, m.session.environment.settings = .ok t → ∃ l : Level, t.level = l.name ∧
        m.configures? = some ⟨l, t.json⟩ ∧ m.step.control = .give (.text l.name)) ∧
      ∀ f, m.session.environment.settings = .error f →
        m.configures? = none ∧ f.kind = .badValue ∧ m.step = ⟨.raise f, m.stack, m.session⟩) := by
  refine ⟨h.journal_eq, ?_, ?_, ?_, ?_⟩
  · intro past n n' future hmoves e sink he
    obtain ⟨hpast, hmove⟩ := h.split hmoves
    obtain ⟨rfl, hlog⟩ := hmove.of_mem_added he
    have hsink : n.session.sink = .under (inForce past) := hpast.sink_eq
    rcases hlog.cases with hlibrary | ⟨control, lines, hlines⟩
    · -- no event of the library is refused, for none has a field with a place of its own
      obtain ⟨lines, hlines⟩ := hlibrary.unbroken.exists_lines (inForce past)
      refine ⟨.inl ⟨hlibrary, hlibrary.unbroken⟩, lines, ?_, Event.writtenUnder_of_lines hlines⟩
      exact shown_of_lines (hsink ▸ hlines)
    · refine ⟨.inr control, lines, shown_of_lines hlines, ?_⟩
      exact Event.writtenUnder_of_lines (hsink ▸ hlines)
  · intro e control hunbroken
    obtain ⟨lines, hlines⟩ := hunbroken.exists_lines (inForce moves)
    exact added_of_log control (h.sink_eq ▸ hlines)
  · intro level json control
    have hrequest := requested?_of_configure control
    refine ⟨fun l hl => ?_, fun hl => ?_⟩
    · rw [Logging.ofText_of_capitalize hl] at hrequest
      obtain ⟨hconfigures, hstep⟩ := step_of_requested_ok hrequest
      exact ⟨hconfigures, by rw [hstep]⟩
    · rw [Logging.ofText_of_ne hl] at hrequest
      exact step_of_requested_error hrequest
  · intro control
    have hrequest := requested?_of_configureFromEnvironment control
    refine ⟨fun t ht => ?_, fun f hf => ?_⟩
    · obtain ⟨l, hl⟩ := Environment.exists_level ht
      have hname : Text.capitalize t.level = l.name := hl ▸ l.capitalize_name
      rw [ht, ok_bind, Logging.ofText_of_capitalize hname] at hrequest
      obtain ⟨hconfigures, hstep⟩ := step_of_requested_ok hrequest
      exact ⟨l, hl, hconfigures, by rw [hstep]⟩
    · rw [hf] at hrequest
      exact step_of_requested_error hrequest

/-- Configures logging with records from warnings on, fails to configure it again, and retrieves a
key too soon. -/
def retrievingTooSoon : Program :=
  .andThen (.perform (.create (.scoped "s" none none))) <|
    .reach (.named "s") fun place =>
      .andThen (.perform (.settings (.configure "Warning" true))) <|
        .andThen (.attempt (.perform (.settings (.configure "chatty" false))) [.badValue]
          fun _ => .done .null) <|
          .perform (.inspect (.retrieve place (.text "k")))

/-- The machine that has taken a number of steps on that. -/
def onRetrieving (steps : Nat) : Machine :=
  (load retrievingTooSoon (.start .lines [])).run steps

/-- The event that is logged for the key. -/
def retrievedTooSoon : Event :=
  .usageFault "scoped" "cache" "scoped_cache" "retrieve" ⟨.text "k", "'k'"⟩

theorem output_follows_configuration_retrieving :
    (onRetrieving 9).step =
      ⟨.raise (.badLevel "chatty"), (onRetrieving 9).stack, (onRetrieving 9).session⟩ ∧
    ∃ moves lines, History (load retrievingTooSoon (.start .lines [])) moves (onRetrieving 13) ∧
      inForce moves = some ⟨.warning, true⟩ ∧
      added (onRetrieving 13) (onRetrieving 13).step =
        [.event retrievedTooSoon (.written ⟨.warning, true⟩)] ∧
      retrievedTooSoon.WrittenUnder (inForce moves) lines ∧
      lines = [.record retrievedTooSoon.record] := by
  have history (steps : Nat) : ∃ moves, History (load retrievingTooSoon (.start .lines [])) moves
      (onRetrieving steps) := Leads.exists_history (leads_run steps _)
  obtain ⟨earlier, hearlier⟩ := history 9
  obtain ⟨-, -, -, hconfigure, -⟩ := output_follows_configuration hearlier
  have hchatty : ∀ l : Level, Text.capitalize "chatty" ≠ l.name := by
    intro l
    cases l <;> decide
  obtain ⟨-, -, hstep⟩ := (hconfigure "chatty" false rfl).2 hchatty
  obtain ⟨moves, hmoves⟩ := history 13
  have hinForce : inForce moves = some ⟨.warning, true⟩ := by
    have hsink : (onRetrieving 13).session.sink = .under (inForce moves) := hmoves.sink_eq
    cases hforce : inForce moves with
    | none => rw [hforce] at hsink; cases hsink
    | some l => rw [hforce] at hsink; cases hsink; rfl
  have hadded : added (onRetrieving 13) (onRetrieving 13).step =
      [.event retrievedTooSoon (.written ⟨.warning, true⟩)] := rfl
  obtain ⟨-, hevents, -⟩ := output_follows_configuration (hmoves.move (.step rfl))
  obtain ⟨-, lines, -, hwritten⟩ :=
    hevents moves _ _ [] rfl _ _ (hadded ▸ List.mem_singleton_self _)
  have hlines : lines ≠ [] := hwritten.written_iff.mpr ⟨_, hinForce, by decide⟩
  exact ⟨hstep, moves, lines, hmoves, hinForce, hadded, hwritten,
    hwritten.record _ hinForce rfl hlines⟩

end Machine

end CheckedMemo
