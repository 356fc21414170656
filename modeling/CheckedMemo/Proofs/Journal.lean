import CheckedMemo.Proofs.SingleComputation

/-!
# The journal

The journal of a session only grows, and what goes into it in a step are marks and events with the
sink of the time (`step_logs`).  Refusals and installations apart, a step adds an event in three
cases only: a timed block is left, a cache starts a computation, or the program logs an event by
itself (`step_journal_cases`).  So no other event tells of a miss (`Session.Quiet`, `step_journal`).
What a cache logs is its label and the key as it is shown then.
-/

namespace CheckedMemo

/-! ### Events that are logged -/

/-- The events that the library logs besides misses. -/
inductive Event.Routine : Event → Prop where
  | refusal {e : Event} (f : Fault) (h : f.event? = some e) : Routine e
  | timer (label : String) : Routine (.blockTimer label)
  | installation (query : String) : Routine (.overrideInstalled query)

/-- The events among these that no timed block logs. -/
inductive Event.Notice : Event → Prop where
  | refusal {e : Event} (f : Fault) (h : f.event? = some e) : Notice e
  | installation (query : String) : Notice (.overrideInstalled query)

theorem Event.Notice.routine {e : Event} (h : e.Notice) : e.Routine := by
  cases h with
  | refusal f h => exact .refusal f h
  | installation query => exact .installation query

theorem Event.Notice.name_ne {e : Event} (h : e.Notice) :
    e.name ≠ "cache_miss" ∧ e.name ≠ "block_timer" := by
  have hname : e.name = "usage_fault" ∨ e.name = "query_override_installed" := by
    cases h with
    | refusal f h => cases f <;> cases h <;> exact .inl rfl
    | installation => exact .inr rfl
  rcases hname with hname | hname <;> rw [hname] <;> decide

theorem Event.Routine.name_ne {e : Event} (h : e.Routine) : e.name ≠ "cache_miss" := by
  cases h with
  | refusal f h => exact (Notice.refusal f h).name_ne.1
  | timer =>
    have hname : "block_timer" ≠ "cache_miss" := by decide
    exact hname
  | installation query => exact (Notice.installation query).name_ne.1

/-- What the journal of `t` has more than that of `s` are marks, and events of a kind with the sink
of `s`. -/
def Session.Logs (kind : Event → Prop) (s t : Session) : Prop :=
  ∃ es : List Entry, t.journal.toList = s.journal.toList ++ es ∧
    ∀ e sink, .event e sink ∈ es → sink = s.sink ∧ kind e

/-- What the journal of `t` has more than that of `s` tells of no miss. -/
def Session.Quiet (s t : Session) : Prop :=
  ∃ es : List Entry, t.journal.toList = s.journal.toList ++ es ∧
    ∀ e sink, .event e sink ∈ es → e.name ≠ "cache_miss"

namespace Session

theorem Quiet.of_eq {s t : Session} (h : t.journal = s.journal) : Quiet s t :=
  ⟨[], by rw [h, List.append_nil], fun _ _ he => absurd he List.not_mem_nil⟩

namespace Logs

variable {kind : Event → Prop} {s t : Session}

theorem of_eq (h : t.journal = s.journal) : Logs kind s t :=
  ⟨[], by rw [h, List.append_nil], fun _ _ he => absurd he List.not_mem_nil⟩

theorem of_push {entry : Entry} (h : t.journal = s.journal.push entry)
    (hentry : ∀ e sink, entry = .event e sink → sink = s.sink ∧ kind e) : Logs kind s t := by
  refine ⟨[entry], by rw [h, Array.toList_push], ?_⟩
  intro e sink he
  exact hentry e sink (List.mem_singleton.mp he).symm

theorem of_log {e : Event} (h : t.journal = (s.log e).journal) (he : kind e) : Logs kind s t := by
  refine of_push h ?_
  rintro _ _ ⟨⟩
  exact ⟨rfl, he⟩

theorem trans {u : Session} (h : Logs kind s t) (hsink : t.sink = s.sink) (h' : Logs kind t u) :
    Logs kind s u := by
  obtain ⟨es, hes, hkind⟩ := h
  obtain ⟨es', hes', hkind'⟩ := h'
  refine ⟨es ++ es', by rw [hes', hes, List.append_assoc], ?_⟩
  intro e sink he
  rcases List.mem_append.mp he with he | he
  · exact hkind e sink he
  · exact hsink ▸ hkind' e sink he

theorem imp {kind' : Event → Prop} (h : Logs kind s t) (himp : ∀ e, kind e → kind' e) :
    Logs kind' s t := by
  obtain ⟨es, hes, hkind⟩ := h
  exact ⟨es, hes, fun e sink he => (hkind e sink he).imp_right (himp e)⟩

/-- No event but a miss has its name. -/
theorem quiet (h : Logs Event.Routine s t) : Quiet s t := by
  obtain ⟨es, hes, hroutine⟩ := h
  exact ⟨es, hes, fun e sink he => (hroutine e sink he).2.name_ne⟩

theorem report (f : Fault) : Logs Event.Notice s (s.report f) := by
  unfold Session.report
  split
  · rename_i he
    exact of_log rfl (.refusal f he)
  · exact of_eq rfl

theorem foldl_report (fs : List Fault) : Logs Event.Notice s (fs.foldl Session.report s) := by
  induction fs generalizing s with
  | nil => exact of_eq rfl
  | cons f fs ih =>
    obtain ⟨_, hreport⟩ := s.report_eq f
    rw [List.foldl_cons]
    exact (report f).trans (by rw [hreport]) ih

end Logs

variable {s t : Session}

theorem journal_release (s : Session) (id : Nat) (mode : Mode) :
    (s.release id mode).journal = s.journal := by
  obtain ⟨_, h⟩ := s.release_eq id mode
  rw [h]

theorem journal_inspect (s : Session) (i : Inspection) : (s.inspect i).2.journal = s.journal := by
  rcases s.inspect_cases i with h | ⟨_, h⟩ <;> rw [h]

theorem journal_create (s : Session) (c : Creation) : (s.create c).journal = s.journal := by
  cases c <;> rfl

theorem journal_locate {target : Target} {place : Place} (h : s.locate target = .ok (place, t)) :
    t.journal = s.journal := by
  rcases locate_eq_ok h with ⟨rfl, -⟩ | ⟨id, hid⟩
  · rfl
  · obtain ⟨c, -, -, ⟨-, rfl⟩ | ⟨-, -, rfl⟩⟩ := locateConfined_eq_ok hid <;> rfl

/-- Installing an override is logged. -/
theorem table_logs (s : Session) (c : TableCommand) : Logs Event.Notice s (s.table c).2 := by
  rcases s.table_cases c with ⟨_, _, h⟩ | ⟨_, h⟩ | ⟨_, o, _, _, _, -, h⟩
  · exact .of_eq (by rw [h])
  · exact .of_eq (by rw [h])
  · exact .of_log (by rw [h]; rfl) (.installation o.query)

/-- A command logs nothing but that, unless it is the command to log an event. -/
theorem perform_logs (s : Session) {c : Command} (hlog : ∀ e, c ≠ .settings (.log e)) :
    Logs Event.Notice s (s.perform c).2 := by
  cases c with
  | memory | spell => exact .of_eq rfl
  | inspect i => exact .of_eq (s.journal_inspect i)
  | view c =>
    obtain ⟨_, _, h⟩ := s.view_eq c
    exact .of_eq (by rw [perform, h])
  | create c => exact .of_eq (s.journal_create c)
  | table c => exact s.table_logs c
  | mark v =>
    rw [perform, mark]
    split
    · refine .of_push rfl ?_
      rintro _ _ ⟨⟩
    · exact .of_eq rfl
  | settings c =>
    rcases s.settings_cases c with ⟨_, _, h⟩ | ⟨u, h⟩ | ⟨e, rfl, -⟩
    · exact .of_eq (by rw [perform, h])
    · obtain ⟨_, hu⟩ := s.settingsValue_eq u
      exact .of_eq (by rw [perform, h, hu])
    · exact absurd rfl (hlog e)

/-- An event that a program logs goes into the journal if it can be rendered; else the program
fails. -/
theorem perform_log_cases (s : Session) (e : Event) :
    ((∃ lines, e.lines s.sink = .ok lines) ∧
      s.perform (.settings (.log e)) = (.ok .null, s.log e)) ∨
    ∃ f, e.lines s.sink = .error f ∧ s.perform (.settings (.log e)) = (.error f, s) := by
  rw [perform]
  unfold settings logChecked
  dsimp only
  cases e.lines s.sink with
  | ok lines => exact .inl ⟨⟨lines, rfl⟩, rfl⟩
  | error f => exact .inr ⟨f, rfl, rfl⟩

end Session

namespace Machine

open Session (Logs Quiet)

/-! ### Requests -/

/-- The cache `id` is asked for a key, and logs that it has missed it: its label, and the key as it
is shown now. -/
def LogsMiss (m m' : Machine) (id : Nat) : Prop :=
  ∃ place key compute r shown, m.control = .eval (.get place key compute) ∧ place.id = id ∧
    m.session.resources[id]? = some r ∧ (m.session.request key).spelled = .ok shown ∧
    m'.session.journal = m.session.journal.push (.event
      { logger := "pinned_memo.cache"
        level := .debug
        name := "cache_miss"
        fields := [("cache", .label r.guard.label), ("key", .text shown.text)] } m.session.sink)

variable (stack : List Frame) (s : Session)

theorem journal_copy (v : Value) : (copy v stack s).session.journal = s.journal := by
  rcases session_copy_cases stack s v with h | ⟨_, h⟩ <;> rw [h]

/-- A request logs a miss exactly if it has a computation started. -/
theorem get_journal (place : Place) (key : Value) (compute : Value → Program) :
    let m : Machine := ⟨.eval (.get place key compute), stack, s⟩
    (LogsMiss m m.step place.id ∧ ∃ k, Starts m m.step ⟨place.id, k⟩) ∨
      Logs Event.Notice s m.step.session ∧ m.step.tasks = m.tasks := by
  intro m
  show (LogsMiss m (get place.id key compute stack s) place.id ∧
    ∃ k, Starts m (get place.id key compute stack s) ⟨place.id, k⟩) ∨
      Logs Event.Notice s (get place.id key compute stack s).session ∧
        (get place.id key compute stack s).tasks = m.tasks
  unfold get
  split
  · rename_i c found
    unfold getStable
    split
    · exact .inr ⟨.report _, rfl⟩
    · exact .inr ⟨.of_eq rfl, rfl⟩
    · rename_i shown k c' hstart
      obtain ⟨-, hindex, -, -, hshown, rfl⟩ := StableCache.start_eq_miss_iff.mp hstart
      have hkey : key.key = .ok k := Request.index_eq_ok_iff.mp hindex
      exact .inl ⟨⟨place, key, compute, _, shown, rfl, rfl, found, hshown, rfl⟩, k,
        ⟨place, key, compute, rfl, rfl, hkey, rfl⟩, _, _, rfl, rfl, List.suffix_rfl⟩
  · rename_i c found
    unfold getValue
    split
    · exact .inr ⟨.report _, rfl⟩
    · exact .inr ⟨.of_eq rfl, rfl⟩
    · rename_i shown k c' hstart
      obtain ⟨-, hindex, -, hshown, rfl⟩ := ValueCache.start_eq_miss_iff.mp hstart
      have hkey : key.key = .ok k := Request.index_eq_ok_iff.mp hindex
      exact .inl ⟨⟨place, key, compute, _, shown, rfl, rfl, found, hshown, rfl⟩, k,
        ⟨place, key, compute, rfl, rfl, hkey, rfl⟩, _, _, rfl, rfl, List.suffix_cons ..⟩
  · exact .inr ⟨.report _, rfl⟩

/-! ### All steps -/

/-- The reply to a command logs nothing but the refusal, if there is one. -/
theorem perform_reply_logs {c : Command} (hlog : ∀ e, c ≠ .settings (.log e)) :
    Logs Event.Notice s (reply stack (s.perform c)).session := by
  have hlogs := s.perform_logs hlog
  cases hreply : s.perform c with
  | mk outcome t =>
    rw [hreply] at hlogs
    cases outcome with
    | ok v => exact hlogs
    | error f =>
      -- a command that fails has not configured anything
      have hsink : t.sink = s.sink := by
        cases hrequest : s.requested? c with
        | none => rw [← Session.sink_perform hrequest, hreply]
        | some r =>
          have hconfigured := Session.perform_of_requested hrequest
          rw [hreply] at hconfigured
          cases r <;> cases hconfigured
          rfl
      exact hlogs.trans hsink (.report f)

theorem peek_logs (id : Nat) (key : Value) :
    Logs Event.Notice s (peek id key stack s).session := by
  unfold peek
  split
  · rename_i c _
    cases hpeek : c.peek (s.request key) with
    | ok v => exact .of_eq rfl
    | error f => exact .report f
  · split
    · exact .report _
    · exact .of_eq rfl
  · exact .report _

/-- A program that starts logs a refusal at most, unless it is a request or logs an event by
itself. -/
theorem begin_logs (p : Program) (hget : ∀ place key compute, p ≠ .get place key compute)
    (hlog : ∀ e, p ≠ .perform (.settings (.log e))) :
    Logs Event.Notice s (begin p stack s).session := by
  cases p with
  | get place key compute => exact absurd rfl (hget place key compute)
  | done | fail | bind | attempt | on | store => exact .of_eq rfl
  | perform c => exact perform_reply_logs stack s fun e hc => hlog e (congrArg _ hc)
  | timed label enabled body =>
    rw [begin, time]
    split
    · exact .report _
    · exact .of_eq rfl
    · exact .of_eq rfl
  | reach target next =>
    rw [begin]
    split
    · rename_i hlocate
      exact .of_eq (Session.journal_locate hlocate)
    · exact .report _
  | view place mode key body =>
    rw [begin, openView]
    split
    · exact .report _
    · rename_i hopened
      obtain ⟨r, -, -, rfl⟩ := Session.openView_eq_ok hopened
      exact .of_eq rfl
  | peek place key => exact peek_logs ..
  | copy v => exact .of_eq (journal_copy ..)
  | invoke code call =>
    rw [begin, invoke]
    split
    · exact .of_eq rfl
    · split
      · exact .of_eq rfl
      · exact .report _
    · exact .report _
  | locate | resolve | fetch =>
    rw [begin]
    split
    · exact .of_eq rfl
    · exact .report _

theorem finish_logs (id : Nat) (key : Spelled) (k : Key) (outcome : Except Fault Value) :
    Logs Event.Notice s (finish id key k outcome stack s).session := by
  unfold finish
  split
  · dsimp only
    split <;> exact (Logs.of_eq rfl).trans rfl (.foldl_report _)
  · exact .report _

/-- A value that is taken to a frame logs refusals at most, unless a timed block ends. -/
theorem resume_logs (v : Value) {frame : Frame} (h : ∀ label, frame ≠ .timer label) :
    Logs Event.Notice s (resume v frame stack s).session := by
  cases frame with
  | bind | attempt | thread => exact .of_eq rfl
  | timer label => exact absurd rfl (h label)
  | release id mode => exact .of_eq (Session.journal_release ..)
  | computing id key k => exact finish_logs ..
  | storing id k =>
    rw [resume, deposit]
    split
    · exact .of_eq rfl
    · exact .report _

/-- A fault that is taken to a frame logs refusals at most, unless a timed block ends. -/
theorem unwind_logs (f : Fault) {frame : Frame} (h : ∀ label, frame ≠ .timer label) :
    Logs Event.Notice s (unwind f frame stack s).session := by
  cases frame with
  | bind | thread | storing => exact .of_eq rfl
  | attempt kinds handler =>
    rw [unwind]
    split <;> exact .of_eq rfl
  | timer label => exact absurd rfl (h label)
  | release id mode => exact .of_eq (Session.journal_release ..)
  | computing id key k => exact finish_logs ..

/-- A machine is about to leave a timed block. -/
def LeavesBlock (m : Machine) (label : String) : Prop :=
  m.control.isOutcome = true ∧ ∃ rest, m.stack = .timer label :: rest

/-- A timed block that is left logs its end, and passes its outcome on. -/
theorem step_timer {m : Machine} {label : String} {rest : List Frame}
    (hc : m.control.isOutcome = true) (hs : m.stack = .timer label :: rest) :
    m.step = ⟨m.control, rest, m.session.log (.blockTimer label)⟩ := by
  obtain ⟨control, stack, s⟩ := m
  obtain rfl : stack = .timer label :: rest := hs
  cases control with
  | eval p => cases hc
  | give v | raise f => rfl

/-- A step logs nothing but refusals and installations, unless a timed block is left, a cache starts
a computation or the program logs an event by itself. -/
theorem step_journal_cases (m : Machine) :
    Logs Event.Notice m.session m.step.session ∨ (∃ label, LeavesBlock m label) ∨
      (∃ id, LogsMiss m m.step id) ∨ ∃ e, m.control = .eval (.perform (.settings (.log e))) := by
  obtain ⟨control, stack, s⟩ := m
  have houtcome {frame : Frame} {rest : List Frame} (hc : control.isOutcome = true)
      (hlogs : (∀ label, frame ≠ .timer label) →
        Logs Event.Notice s (step ⟨control, frame :: rest, s⟩).session) :
      Logs Event.Notice s (step ⟨control, frame :: rest, s⟩).session ∨
        ∃ label, LeavesBlock ⟨control, frame :: rest, s⟩ label := by
    by_cases htimer : ∃ label, frame = .timer label
    · obtain ⟨label, rfl⟩ := htimer
      exact .inr ⟨label, hc, rest, rfl⟩
    · exact .inl (hlogs fun label h => htimer ⟨label, h⟩)
  cases control with
  | give v =>
    cases stack with
    | nil => exact .inl (.of_eq rfl)
    | cons frame rest => exact (houtcome rfl (resume_logs rest s v)).imp_right .inl
  | raise f =>
    cases stack with
    | nil => exact .inl (.of_eq rfl)
    | cons frame rest => exact (houtcome rfl (unwind_logs rest s f)).imp_right .inl
  | eval p =>
    by_cases hget : ∃ place key compute, p = .get place key compute
    · obtain ⟨place, key, compute, rfl⟩ := hget
      rcases get_journal stack s place key compute with ⟨hlogs, -⟩ | ⟨hnotice, -⟩
      · exact .inr (.inr (.inl ⟨place.id, hlogs⟩))
      · exact .inl hnotice
    · by_cases hlog : ∃ e, p = .perform (.settings (.log e))
      · obtain ⟨e, rfl⟩ := hlog
        exact .inr (.inr (.inr ⟨e, rfl⟩))
      · left
        refine begin_logs stack s p ?_ ?_
        · exact fun place key compute hp => hget ⟨place, key, compute, hp⟩
        · exact fun e hp => hlog ⟨e, hp⟩

/-- A step logs nothing but refusals, ends of timed blocks and installations, unless a cache starts
a computation or the program logs an event by itself. -/
theorem step_routine_cases (m : Machine) :
    Logs Event.Routine m.session m.step.session ∨ (∃ id, LogsMiss m m.step id) ∨
      ∃ e, m.control = .eval (.perform (.settings (.log e))) := by
  rcases step_journal_cases m with hnotice | ⟨label, hc, rest, hs⟩ | hother
  · exact .inl (hnotice.imp fun _ he => he.routine)
  · rw [step_timer hc hs]
    exact .inl (.of_log rfl (.timer label))
  · exact .inr hother

/-- A step logs no miss, unless a cache starts a computation or the program logs an event by
itself. -/
theorem step_journal (m : Machine) :
    Quiet m.session m.step.session ∨ (∃ id, LogsMiss m m.step id) ∨
      ∃ e, m.control = .eval (.perform (.settings (.log e))) :=
  (step_routine_cases m).imp_left Logs.quiet

/-- The events that a machine can log in its next step. -/
inductive CanLog (m : Machine) : Event → Prop where
  | routine {e : Event} (h : e.Routine) : CanLog m e
  | miss (label : Label) (key : Spelled) : CanLog m (.cacheMiss label key)
  /-- An event of the program, which has lines under the sink. -/
  | program {e : Event} {lines : List Line}
    (control : m.control = .eval (.perform (.settings (.log e))))
    (h : e.lines m.session.sink = .ok lines) : CanLog m e

/-- The journal has the events of a step with the sink that the step finds. -/
theorem step_logs (m : Machine) : Logs m.CanLog m.session m.step.session := by
  rcases step_routine_cases m with hroutine | ⟨id, hmiss⟩ | ⟨e, control⟩
  · exact hroutine.imp fun _ he => .routine he
  · obtain ⟨place, key, compute, r, shown, -, -, -, -, hjournal⟩ := hmiss
    exact .of_log hjournal (.miss r.guard.label shown)
  · rw [step_perform control]
    rcases m.session.perform_log_cases e with ⟨⟨lines, hlines⟩, hperform⟩ | ⟨f, -, hperform⟩
    · rw [hperform]
      exact .of_log rfl (.program control hlines)
    · rw [hperform]
      exact (Logs.report f).imp fun _ he => .routine he.routine

variable {m m' : Machine} {id : Nat}

/-- What is logged at a request that has no computation started is no miss. -/
theorem not_logsMiss_of_quiet (h : Quiet m.session m'.session) : ¬LogsMiss m m' id := by
  rintro ⟨place, key, compute, r, shown, -, -, -, -, hjournal⟩
  obtain ⟨es, hes, hquiet⟩ := h
  rw [hjournal, Array.toList_push] at hes
  have hadded := List.append_cancel_left hes
  exact hquiet _ _ (hadded ▸ List.mem_singleton_self _) rfl

/-- **A cache logs a miss exactly when it starts a computation.** -/
theorem Move.logsMiss_iff (h : Move m m') : LogsMiss m m' id ↔ ∃ k, Starts m m' ⟨id, k⟩ := by
  have hget (place : Place) (key : Value) (compute : Value → Program)
      (control : m.control = .eval (.get place key compute)) (hplace : place.id = id) :
      LogsMiss m m' id ↔ ∃ k, Starts m m' ⟨id, k⟩ := by
    obtain rfl := h.eq_step_of_eval control
    obtain ⟨control', stack, s⟩ := m
    obtain rfl : control' = .eval (.get place key compute) := control
    subst hplace
    rcases get_journal stack s place key compute with ⟨hlogs, hstarts⟩ | ⟨hnotice, htasks⟩
    · exact ⟨fun _ => hstarts, fun _ => hlogs⟩
    · have hquiet := (hnotice.imp fun _ he => Event.Notice.routine he).quiet
      refine ⟨fun hlogs => absurd hlogs (not_logsMiss_of_quiet hquiet), ?_⟩
      rintro ⟨k, hstarts⟩
      have hlength := tasks_of_starts hstarts
      rw [htasks] at hlength
      exact absurd hlength (Nat.lt_irrefl _)
  constructor
  · rintro ⟨place, key, compute, r, shown, control, hplace, hrest⟩
    exact (hget place key compute control hplace).mp
      ⟨place, key, compute, r, shown, control, hplace, hrest⟩
  · rintro ⟨k, hstarts⟩
    obtain ⟨place, key, compute, control, hplace, -⟩ := hstarts.1
    exact (hget place key compute control hplace).mpr ⟨k, hstarts⟩

end Machine

end CheckedMemo
