import CheckedMemo.Proofs.Lookup
import CheckedMemo.Proofs.Run

/-!
# The journal is only written

What a session does depends neither on what its journal holds already nor on the frames below the
program at work.  So the same steps are taken with more in the journal and more frames on the
stack (`Machine.placed`, `step_placed`), and a program ends there exactly if it ends without them
(`ends_placed_iff`).
-/

namespace CheckedMemo

namespace Session

/-- The session with the entries `past` in the journal before all others. -/
def after (past : Array Entry) (s : Session) : Session := { s with journal := past ++ s.journal }

section

variable (past : Array Entry) (s : Session)

@[simp] theorem thread_after : (s.after past).thread = s.thread := rfl
@[simp] theorem memory_after : (s.after past).memory = s.memory := rfl
@[simp] theorem code_after : (s.after past).code = s.code := rfl
@[simp] theorem resources_after : (s.after past).resources = s.resources := rfl
@[simp] theorem confined_after : (s.after past).confined = s.confined := rfl
@[simp] theorem overrides_after : (s.after past).overrides = s.overrides := rfl
@[simp] theorem names_after : (s.after past).names = s.names := rfl
@[simp] theorem views_after : (s.after past).views = s.views := rfl
@[simp] theorem environment_after : (s.after past).environment = s.environment := rfl
@[simp] theorem sink_after : (s.after past).sink = s.sink := rfl
@[simp] theorem request_after (key : Value) : (s.after past).request key = s.request key := rfl
@[simp] theorem resource_after (id : Nat) : (s.after past).resource id = s.resource id := rfl
@[simp] theorem tableNamed_after (name : String) :
    (s.after past).tableNamed name = s.tableNamed name := rfl
@[simp] theorem overrideNamed_after (name : String) :
    (s.after past).overrideNamed name = s.overrideNamed name := rfl
@[simp] theorem isHookOf_after (override code : Nat) :
    (s.after past).isHookOf override code = s.isHookOf override code := rfl

@[simp] theorem codeAt_after (source : Source) :
    (s.after past).codeAt source = s.codeAt source := by
  cases source <;> rfl

end

variable {past : Array Entry} {s : Session}

/-! ### What a session notes -/

theorem after_push (entry : Entry) :
    { s.after past with journal := (s.after past).journal.push entry } =
      Session.after past { s with journal := s.journal.push entry } :=
  congrArg (fun journal => { s with journal }) Array.append_push.symm

theorem log_after (e : Event) : (s.after past).log e = (s.log e).after past :=
  after_push (.event e s.sink)

theorem report_after (f : Fault) : (s.after past).report f = (s.report f).after past := by
  unfold report
  split
  · exact log_after _
  · rfl

theorem foldl_report_after (fs : List Fault) :
    fs.foldl report (s.after past) = (fs.foldl report s).after past := by
  induction fs generalizing s with
  | nil => rfl
  | cons f fs ih => rw [List.foldl_cons, List.foldl_cons, report_after, ih]

/-! ### Commands -/

/-- A reply with the entries `past` in the journal before all others. -/
def replyAfter (past : Array Entry) (r : Except Fault Value × Session) :
    Except Fault Value × Session :=
  (r.1, r.2.after past)

theorem release_after (id : Nat) (mode : Mode) :
    (s.after past).release id mode = (s.release id mode).after past := by
  rw [release, release, resources_after]
  cases s.resources[id]? <;> rfl

theorem dropNamed_after (name : String) :
    (s.after past).dropNamed name = (s.dropNamed name).after past := by
  rw [dropNamed, dropNamed, views_after]
  cases s.views.get? name with
  | none => rfl
  | some v =>
    dsimp only
    rw [release_after]
    rfl

theorem openView_after (id : Nat) (mode : Mode) (key : Value) :
    (s.after past).openView id mode key =
      (s.openView id mode key).map fun o => ⟨o.content, o.session.after past⟩ := by
  rw [openView, openView, resources_after, request_after]
  cases s.resources[id]? with
  | none => rfl
  | some r =>
    dsimp only
    cases r.guard.allow mode (s.request key) <;> rfl

theorem locateConfined_after (id : Nat) :
    (s.after past).locateConfined id =
      (s.locateConfined id).map fun found => (found.1, found.2.after past) := by
  rw [locateConfined, locateConfined, confined_after, thread_after]
  cases s.confined[id]? with
  | none => rfl
  | some c =>
    dsimp only
    cases c.caches.get? s.thread <;> rfl

theorem locateArtifacts_after (override : Nat) :
    (s.after past).locateArtifacts override =
      (s.locateArtifacts override).map fun found => (found.1, found.2.after past) := by
  rw [locateArtifacts, locateArtifacts, overrides_after]
  cases s.overrides[override]? with
  | none => rfl
  | some o => exact locateConfined_after o.artifacts

theorem locate_after (target : Target) :
    (s.after past).locate target =
      (s.locate target).map fun found => (found.1, found.2.after past) := by
  cases target with
  | artifacts override => exact locateArtifacts_after override
  | common => exact locateConfined_after 0
  | named name =>
    rw [locate, locate, names_after]
    cases s.names.get? name with
    | none => rfl
    | some handle =>
      cases handle with
      | resource | «scoped» | providers => rfl
      | confined id => exact locateConfined_after id
      | override id => exact locateArtifacts_after id

theorem view_after (c : ViewCommand) :
    (s.after past).view c = replyAfter past (s.view c) := by
  cases c with
  | isOpen name => rfl
  | openAs name place mode key =>
    rw [view, view, openNamed, openNamed, openView_after]
    cases s.openView place.id mode key with
    | error f => rfl
    | ok o =>
      dsimp only [Except.map]
      rw [dropNamed_after]
      rfl
  | close name failure =>
    rw [view, view]
    unfold closeNamed
    rw [views_after, dropNamed_after]
    split
    · cases failure <;> rfl
    · rfl

theorem inspect_after (i : Inspection) :
    (s.after past).inspect i = replyAfter past (s.inspect i) := by
  cases i with
  | stats p =>
    rw [inspect, inspect, stats, stats, resource_after, memory_after]
    cases s.resource p.id >>= Resource.stats <;> rfl
  | contains | size | label | readers | isBorrowed | retrieve => rfl

theorem create_after (c : Creation) : (s.after past).create c = (s.create c).after past := by
  cases c <;> rfl

theorem changed_after (r : Except Fault Session) :
    (s.after past).changed (r.map (·.after past)) = replyAfter past (s.changed r) := by
  cases r <;> rfl

theorem aliasEntry_after (providers query otherProviders otherQuery : String) :
    (s.after past).aliasEntry providers query otherProviders otherQuery =
      (s.aliasEntry providers query otherProviders otherQuery).map (·.after past) := by
  rw [aliasEntry, aliasEntry, codeAt_after, tableNamed_after]
  cases s.codeAt (.provider providers query) with
  | error f => rfl
  | ok code => cases s.tableNamed otherProviders <;> rfl

theorem withdraw_after (providers query : String) :
    (s.after past).withdraw providers query =
      (s.withdraw providers query).map (·.after past) := by
  rw [withdraw, withdraw, tableNamed_after]
  cases s.tableNamed providers with
  | error f => rfl
  | ok p =>
    obtain ⟨id, t⟩ := p
    rw [ok_bind, ok_bind]
    dsimp only
    split <;> rfl

theorem hooked_after (id : Nat) (o : Override) (t : Table String Nat) :
    (s.after past).hooked id o t =
      (s.hooked id o t).map fun found => (found.1, found.2.after past) := by
  rw [hooked, hooked]
  cases t.get? o.query with
  | none => rfl
  | some current =>
    dsimp only
    rw [isHookOf_after]
    split <;> rfl

theorem install_after (override providers : String) :
    (s.after past).install override providers =
      (s.install override providers).map (·.after past) := by
  rw [install, install, overrideNamed_after, tableNamed_after]
  cases s.overrideNamed override with
  | error f => rfl
  | ok o =>
    cases s.tableNamed providers with
    | error f => rfl
    | ok p =>
      simp only [ok_bind]
      rw [hooked_after]
      cases s.hooked o.1 o.2 p.2 with
      | error f => rfl
      | ok found => exact congrArg Except.ok (log_after (s := found.2.setTable p.1 found.1) _)

theorem table_after (c : TableCommand) :
    (s.after past).table c = replyAfter past (s.table c) := by
  cases c with
  | define => rfl
  | provide providers query code =>
    rw [table, table, tableNamed_after]
    cases s.tableNamed providers <;> rfl
  | «alias» providers query otherProviders otherQuery =>
    rw [table, table, aliasEntry_after, changed_after]
  | withdraw providers query => rw [table, table, withdraw_after, changed_after]
  | queries providers =>
    rw [table, table, queries, queries, tableNamed_after, memory_after]
    cases s.tableNamed providers <;> rfl
  | install override providers => rw [table, table, install_after, changed_after]

theorem settingsValue_after (t : Settings) :
    (s.after past).settingsValue t = replyAfter past (s.settingsValue t) := by
  unfold settingsValue
  rw [memory_after]
  generalize s.memory.run _ = x
  rfl

theorem configure_after (level : String) (json : Bool) :
    (s.after past).configure level json = replyAfter past (s.configure level json) := by
  rw [configure, configure]
  cases Logging.ofText level json <;> rfl

theorem settings_after (c : SettingsCommand) :
    (s.after past).settings c = replyAfter past (s.settings c) := by
  cases c with
  | setEnvironment => rfl
  | readLevel | readTiming =>
    unfold settings replyAfter
    dsimp only
    rw [environment_after]
  | showSettings t => exact settingsValue_after t
  | configure level json => exact configure_after level json
  | readSettings =>
    unfold settings
    dsimp only
    rw [environment_after]
    cases s.environment.settings with
    | error f => rfl
    | ok t => exact settingsValue_after t
  | configureFromEnvironment =>
    unfold settings
    dsimp only
    rw [environment_after]
    cases s.environment.settings with
    | error f => rfl
    | ok t => exact configure_after t.level t.json
  | log e =>
    unfold settings logChecked
    dsimp only
    rw [sink_after]
    cases e.lines s.sink with
    | error f => rfl
    | ok => exact congrArg (Prod.mk _) (log_after e)

theorem mark_after (v : Value) : (s.after past).mark v = replyAfter past (s.mark v) := by
  rw [mark, mark, memory_after]
  cases s.memory.written v with
  | error f => rfl
  | ok seen => exact congrArg (Prod.mk _) (after_push (.mark seen))

theorem onMemory_after (f : Memory → Except Fault Value × Memory) :
    (s.after past).onMemory f = replyAfter past (s.onMemory f) := rfl

theorem perform_after (c : Command) :
    (s.after past).perform c = replyAfter past (s.perform c) := by
  cases c with
  | memory c => exact onMemory_after (·.run c)
  | inspect i => exact inspect_after i
  | view c => exact view_after c
  | create c => rw [perform, perform, create_after, replyAfter]
  | table c => exact table_after c
  | settings c => rw [perform, perform, settings_after]
  | mark v => exact mark_after v
  | spell v => rw [perform, perform, request_after, replyAfter]

end Session

namespace Machine

open Session (replyAfter)

/-- The machine with the entries `past` in the journal before all others, and the frames `base`
below all others. -/
def placed (past : Array Entry) (base : List Frame) (m : Machine) : Machine :=
  ⟨m.control, m.stack ++ base, m.session.after past⟩

variable {past : Array Entry} {base stack : List Frame} {s : Session} {m m' : Machine}

/-! ### Steps -/

theorem refuse_placed (f : Fault) :
    refuse f (stack ++ base) (s.after past) = (refuse f stack s).placed past base := by
  rw [refuse, Session.report_after]
  rfl

theorem reply_placed (r : Except Fault Value × Session) :
    reply (stack ++ base) (replyAfter past r) = (reply stack r).placed past base := by
  obtain ⟨_ | _, s⟩ := r
  · exact refuse_placed _
  · rfl

theorem getStable_placed (id : Nat) (c : StableCache) (key : Value) (compute : Value → Program) :
    getStable id c key compute (stack ++ base) (s.after past) =
      (getStable id c key compute stack s).placed past base := by
  rw [getStable, getStable, Session.thread_after, Session.request_after]
  cases c.start s.thread (s.request key) with
  | error f => exact refuse_placed f
  | ok found =>
    cases found with
    | hit => rfl
    | miss shown k c' =>
      exact congrArg (Machine.mk _ _) (Session.log_after (s := s.setStable id c') _)

theorem getValue_placed (id : Nat) (c : ValueCache) (key : Value) (compute : Value → Program) :
    getValue id c key compute (stack ++ base) (s.after past) =
      (getValue id c key compute stack s).placed past base := by
  rw [getValue, getValue, Session.request_after]
  cases c.start (s.request key) with
  | error f => exact refuse_placed f
  | ok found =>
    cases found with
    | hit => rfl
    | miss shown k c' =>
      exact congrArg (Machine.mk _ _) (Session.log_after (s := s.setValue id c') _)

theorem get_placed (id : Nat) (key : Value) (compute : Value → Program) :
    get id key compute (stack ++ base) (s.after past) =
      (get id key compute stack s).placed past base := by
  rw [get, get, Session.resources_after]
  cases s.resources[id]? with
  | none => exact refuse_placed _
  | some r =>
    cases r with
    | cell => exact refuse_placed _
    | stable c => exact getStable_placed id c key compute
    | value c => exact getValue_placed id c key compute

theorem peek_placed (id : Nat) (key : Value) :
    peek id key (stack ++ base) (s.after past) = (peek id key stack s).placed past base := by
  rw [peek, peek, Session.resources_after, Session.request_after]
  cases s.resources[id]? with
  | none => exact refuse_placed _
  | some r =>
    cases r with
    | cell => exact refuse_placed _
    | stable c => exact reply_placed (c.peek (s.request key), s)
    | value c =>
      dsimp only
      cases c.openStored (s.request key) with
      | error f => exact refuse_placed f
      | ok found => rfl

theorem copy_placed (v : Value) :
    copy v (stack ++ base) (s.after past) = (copy v stack s).placed past base := by
  unfold copy
  rw [Session.memory_after]
  split
  · split <;> rfl
  · split <;> rfl
  · split <;> rfl
  · rfl

theorem time_placed (label : String) (enabled : Option Bool) (body : Program) :
    time label enabled body (stack ++ base) (s.after past) =
      (time label enabled body stack s).placed past base := by
  rw [time, time, Session.environment_after]
  cases enabled.elim s.environment.timing .ok with
  | error f => exact refuse_placed f
  | ok on => cases on <;> rfl

theorem openView_placed (id : Nat) (mode : Mode) (key : Value) (body : Value → Program) :
    openView id mode key body (stack ++ base) (s.after past) =
      (openView id mode key body stack s).placed past base := by
  rw [openView, openView, Session.openView_after]
  cases s.openView id mode key with
  | error f => exact refuse_placed f
  | ok o => rfl

theorem invoke_placed (code : Nat) (call : Call) :
    invoke code call (stack ++ base) (s.after past) =
      (invoke code call stack s).placed past base := by
  rw [invoke, invoke, Session.code_after, Session.overrides_after]
  cases s.code[code]? with
  | none => exact refuse_placed _
  | some c =>
    cases c with
    | body => rfl
    | hook id behind =>
      dsimp only
      cases s.overrides[id]? with
      | none => exact refuse_placed _
      | some o => rfl

theorem begin_placed (p : Program) :
    begin p (stack ++ base) (s.after past) = (begin p stack s).placed past base := by
  cases p with
  | done | fail | bind | attempt | on | store => rfl
  | perform c =>
    rw [begin, begin, Session.perform_after]
    exact reply_placed _
  | timed label enabled body => exact time_placed label enabled body
  | reach target next =>
    rw [begin, begin, Session.locate_after]
    cases s.locate target with
    | error f => exact refuse_placed f
    | ok found => rfl
  | view place mode key body => exact openView_placed place.id mode key body
  | get place key compute => exact get_placed place.id key compute
  | peek place key => exact peek_placed place.id key
  | copy v => exact copy_placed v
  | locate source next =>
    rw [begin, begin, Session.codeAt_after]
    cases s.codeAt source with
    | error f => exact refuse_placed f
    | ok id => rfl
  | invoke code call => exact invoke_placed code call
  | resolve override providers next =>
    have hfound : (s.after past).overrideAndTable override providers =
        s.overrideAndTable override providers := rfl
    rw [begin, begin, hfound]
    cases s.overrideAndTable override providers with
    | error f => exact refuse_placed f
    | ok found => rfl
  | fetch id table call =>
    rw [begin, begin, Session.overrides_after]
    cases s.overrides[id]? with
    | none => exact refuse_placed _
    | some o => rfl

theorem finish_placed (id : Nat) (key : Spelled) (k : Key) (outcome : Except Fault Value) :
    finish id key k outcome (stack ++ base) (s.after past) =
      (finish id key k outcome stack s).placed past base := by
  rw [finish, finish, Session.resources_after]
  cases s.resources[id]? with
  | none => exact refuse_placed _
  | some r =>
    cases r with
    | cell | value => exact refuse_placed _
    | stable c =>
      have hsession : (c.finish key k outcome).refusals.foldl Session.report
          ((s.setStable id (c.finish key k outcome).cache).after past) = _ :=
        Session.foldl_report_after _
      dsimp only
      cases (c.finish key k outcome).outcome <;> exact congrArg (Machine.mk _ _) hsession

theorem deposit_placed (id : Nat) (k : Key) (v : Value) :
    deposit id k v (stack ++ base) (s.after past) =
      (deposit id k v stack s).placed past base := by
  rw [deposit, deposit, Session.resources_after]
  cases s.resources[id]? with
  | none => exact refuse_placed _
  | some r =>
    cases r with
    | cell | stable => exact refuse_placed _
    | value c => rfl

theorem resume_placed (v : Value) (frame : Frame) :
    resume v frame (stack ++ base) (s.after past) =
      (resume v frame stack s).placed past base := by
  cases frame with
  | bind | attempt | thread => rfl
  | timer label => exact congrArg (Machine.mk _ _) (Session.log_after _)
  | release id mode => exact congrArg (Machine.mk _ _) (Session.release_after id mode)
  | computing id key k => exact finish_placed id key k (.ok v)
  | storing id k => exact deposit_placed id k v

theorem unwind_placed (f : Fault) (frame : Frame) :
    unwind f frame (stack ++ base) (s.after past) =
      (unwind f frame stack s).placed past base := by
  cases frame with
  | bind | thread | storing => rfl
  | attempt kinds handler =>
    rw [unwind, unwind]
    split <;> rfl
  | timer label => exact congrArg (Machine.mk _ _) (Session.log_after _)
  | release id mode => exact congrArg (Machine.mk _ _) (Session.release_after id mode)
  | computing id key k => exact finish_placed id key k (.error f)

/-- **A step depends neither on what the journal holds nor on the frames below.** -/
theorem step_placed (h : m.outcome? = none) :
    (m.placed past base).step = m.step.placed past base := by
  obtain ⟨control, stack, s⟩ := m
  cases control with
  | eval p => exact begin_placed p
  | give v =>
    cases stack with
    | nil => cases h
    | cons frame rest => exact resume_placed v frame
  | raise f =>
    cases stack with
    | nil => cases h
    | cons frame rest => exact unwind_placed f frame

/-! ### Runs -/

/-- Whether a program is over does not depend on the frames below. -/
theorem placed_isOver_iff :
    ((m.placed past base).stack = base ∧ (m.placed past base).control.isOutcome = true) ↔
      m.stack = [] ∧ m.control.isOutcome = true := by
  show (m.stack ++ base = base ∧ _) ↔ _
  rw [List.append_left_eq_self]
  rfl

theorem Ends.placed (h : Ends [] m m') : Ends base (m.placed past base) (m'.placed past base) := by
  induction h with
  | here hs hc =>
    obtain ⟨hs', hc'⟩ := placed_isOver_iff.mpr ⟨hs, hc⟩
    exact .here hs' hc'
  | step hne _ ih =>
    refine .step (mt placed_isOver_iff.mp hne) ?_
    rwa [step_placed ((outcome?_eq_none_iff _).mpr hne)]

/-- A program ends after other entries and on top of other frames exactly if it ends without
them. -/
theorem ends_placed_iff {n : Machine} :
    Ends base (m.placed past base) n ↔ ∃ m', Ends [] m m' ∧ n = m'.placed past base := by
  constructor
  · intro h
    generalize hm : m.placed past base = m₁ at h
    induction h generalizing m with
    | here hs hc =>
      subst hm
      obtain ⟨hs', hc'⟩ := placed_isOver_iff.mp ⟨hs, hc⟩
      exact ⟨m, .here hs' hc', rfl⟩
    | step hne _ ih =>
      subst hm
      have hne' : ¬(m.stack = [] ∧ m.control.isOutcome = true) := mt placed_isOver_iff.mpr hne
      have hnone : m.outcome? = none := (outcome?_eq_none_iff m).mpr hne'
      -- the program is at the same place when it has taken the step
      obtain ⟨m', hm', rfl⟩ := ih (step_placed hnone).symm
      exact ⟨m', .step hne' hm', rfl⟩
  · rintro ⟨m', hm', rfl⟩
    exact hm'.placed

end Machine

end CheckedMemo
