import CheckedMemo.Machine.Step
import CheckedMemo.Proofs.Lookup

/-!
# What operations touch

Each operation of a session is said here once to be an update of some of its fields, with what is
written there where that matters.  Whatever is in the other fields stays, so those who follow a part
of the session (`Change` the cells and caches, `Registry` what is registered, `Journal` the events,
`Heap` the memory) need not look into the operation again.  The same goes for the parts of a step
that run no command.
-/

namespace CheckedMemo

/-- A per-thread cache after a thread has been given a resource as its part. -/
def Confined.withPart (c : Confined) (thread : Thread) (r : Nat) : Confined :=
  { c with caches := c.caches.insert thread r }

namespace Session

/-! ### Reports and marks -/

theorem report_eq (s : Session) (f : Fault) : ∃ journal, s.report f = { s with journal } := by
  unfold report
  cases f.event? with
  | none => exact ⟨s.journal, rfl⟩
  | some e => exact ⟨_, rfl⟩

theorem foldl_report_eq (s : Session) (fs : List Fault) :
    ∃ journal, fs.foldl report s = { s with journal } := by
  induction fs generalizing s with
  | nil => exact ⟨s.journal, rfl⟩
  | cons f fs ih =>
    obtain ⟨journal, hreport⟩ := s.report_eq f
    rw [List.foldl_cons, hreport]
    exact ih { s with journal }

theorem mark_eq (s : Session) (v : Value) : ∃ journal, (s.mark v).2 = { s with journal } := by
  unfold mark
  split
  · exact ⟨_, rfl⟩
  · exact ⟨s.journal, rfl⟩

/-! ### Views -/

theorem release_eq (s : Session) (id : Nat) (mode : Mode) :
    ∃ resources, s.release id mode = { s with resources } := by
  unfold release
  split
  · exact ⟨_, rfl⟩
  · exact ⟨s.resources, rfl⟩

theorem dropNamed_eq (s : Session) (name : String) :
    ∃ resources views, s.dropNamed name = { s with resources, views } := by
  unfold dropNamed
  split
  · exact ⟨s.resources, s.views, rfl⟩
  · rename_i v _
    obtain ⟨resources, hrelease⟩ := s.release_eq v.resource v.mode
    rw [hrelease]
    exact ⟨resources, _, rfl⟩

/-- A view is opened of a resource that has nothing in its way. -/
theorem openView_eq_ok {s : Session} {id : Nat} {mode : Mode} {key : Value} {o : Opened}
    (h : s.openView id mode key = .ok o) :
    ∃ r, s.resources[id]? = some r ∧ r.guard.obstacle? mode = none ∧
      o = ⟨r.content, s.setResource id (r.mapGuard (·.acquire mode))⟩ := by
  unfold openView at h
  split at h
  · cases h
  · rename_i r hr
    obtain ⟨_, hallow, h⟩ := exists_of_bind_eq_ok h
    cases h
    exact ⟨r, hr, (Guard.allow_eq_ok_iff ..).mp hallow, rfl⟩

theorem view_eq (s : Session) (c : ViewCommand) :
    ∃ resources views, (s.view c).2 = { s with resources, views } := by
  cases c with
  | isOpen name => exact ⟨s.resources, s.views, rfl⟩
  | openAs name place mode key =>
    rw [view, openNamed]
    split
    · exact ⟨s.resources, s.views, rfl⟩
    · rename_i o ho
      obtain ⟨r, -, -, rfl⟩ := openView_eq_ok ho
      obtain ⟨resources, views, hdrop⟩ :=
        (s.setResource place.id (r.mapGuard (·.acquire mode))).dropNamed_eq name
      dsimp only
      rw [hdrop]
      exact ⟨resources, _, rfl⟩
  | close name failure =>
    simp only [view, closeNamed]
    split
    · cases failure <;> exact s.dropNamed_eq name
    · exact ⟨s.resources, s.views, rfl⟩

/-! ### Inspections and settings -/

/-- An inspection changes nothing, but that the counts of a cache are given as a new list. -/
theorem inspect_cases (s : Session) (i : Inspection) :
    (s.inspect i).2 = s ∨
      ∃ items, (s.inspect i).2 = { s with memory := (s.memory.newList items).2 } := by
  cases i with
  | stats p =>
    rw [inspect, stats]
    split
    · exact .inl rfl
    · exact .inr ⟨_, rfl⟩
  | _ => exact .inl rfl

/-- Settings are shown as a new dictionary. -/
theorem settingsValue_eq (s : Session) (u : Settings) : ∃ entries,
    (s.settingsValue u).2 = { s with memory := (s.memory.run (.newDict entries)).2 } := by
  unfold settingsValue
  exact ⟨_, rfl⟩

theorem configure_eq (s : Session) (level : String) (json : Bool) :
    ∃ sink, (s.configure level json).2 = { s with sink } := by
  unfold configure
  split
  · exact ⟨s.sink, rfl⟩
  · exact ⟨_, rfl⟩

/-- A command on settings and logging changes the environment or the configuration of logging, shows
settings, or logs an event. -/
theorem settings_cases (s : Session) (c : SettingsCommand) :
    (∃ environment sink, (s.settings c).2 = { s with environment, sink }) ∨
    (∃ u, (s.settings c).2 = (s.settingsValue u).2) ∨
    ∃ e, c = .log e ∧ (s.settings c).2 = s.log e := by
  have same {t : Session} (h : t = s) :
      ∃ environment sink, t = { s with environment, sink } := ⟨s.environment, s.sink, h⟩
  have configured (level : String) (json : Bool) : ∃ environment sink,
      (s.configure level json).2 = { s with environment, sink } := by
    obtain ⟨sink, h⟩ := s.configure_eq level json
    exact ⟨s.environment, sink, h⟩
  cases c with
  | setEnvironment changes => exact .inl ⟨_, s.sink, rfl⟩
  | readLevel | readTiming => exact .inl (same rfl)
  | showSettings u => exact .inr (.inl ⟨u, rfl⟩)
  | configure level json => exact .inl (configured level json)
  | readSettings =>
    unfold settings
    dsimp only
    split
    · exact .inr (.inl ⟨_, rfl⟩)
    · exact .inl (same rfl)
  | configureFromEnvironment =>
    unfold settings
    dsimp only
    split
    · exact .inl (configured ..)
    · exact .inl (same rfl)
  | log e =>
    unfold settings logChecked
    dsimp only
    split
    · exact .inr (.inr ⟨e, rfl, rfl⟩)
    · exact .inl (same rfl)

/-! ### Provider tables -/

theorem overrides_of_overrideNamed {s : Session} {override : String} {id : Nat} {o : Override}
    (h : s.overrideNamed override = .ok (id, o)) : s.overrides[id]? = some o := by
  unfold overrideNamed at h
  split at h
  · split at h
    · rename_i found
      cases h
      exact found
    · cases h
  · cases h

/-- The session in which an override has been installed in front of `current`. -/
def installed (s : Session) (id : Nat) (o : Override) (p : Nat) (t : Table String Nat)
    (current : Nat) : Session :=
  ({ s with code := s.code.push (.hook id current) }.setTable p
    (t.insert o.query s.code.size)).log (.overrideInstalled o.query)

section

variable {s : Session} {override providers : String} {id p current : Nat} {o : Override}
  {t : Table String Nat}

theorem install_eq (ho : s.overrideNamed override = .ok (id, o))
    (ht : s.tableNamed providers = .ok (p, t)) :
    s.install override providers = (do
      let (t, s) ← s.hooked id o t
      return (s.setTable p t).log (.overrideInstalled o.query)) := by
  unfold install
  rw [ho, ht]
  rfl

/-- An override is not installed where its query has no provider. -/
theorem install_of_absent (ho : s.overrideNamed override = .ok (id, o))
    (ht : s.tableNamed providers = .ok (p, t)) (absent : t.get? o.query = none) :
    s.install override providers = .error (.unknownQuery o.query) := by
  rw [install_eq ho ht, hooked, absent]
  rfl

/-- An override is not installed over its own hook. -/
theorem install_of_own (ho : s.overrideNamed override = .ok (id, o))
    (ht : s.tableNamed providers = .ok (p, t)) (found : t.get? o.query = some current)
    (own : s.isHookOf id current = true) :
    s.install override providers = .error (.alreadyOverridden o.query) := by
  rw [install_eq ho ht, hooked, found]
  simp only [own, if_true]
  rfl

/-- An override is installed over anything else. -/
theorem install_of_other (ho : s.overrideNamed override = .ok (id, o))
    (ht : s.tableNamed providers = .ok (p, t)) (found : t.get? o.query = some current)
    (other : s.isHookOf id current = false) :
    s.install override providers = .ok (s.installed id o p t current) := by
  rw [install_eq ho ht, hooked, found]
  simp only [other, Bool.false_eq_true, if_false]
  rfl

/-- An installation that succeeds puts a hook in front of a provider. -/
theorem eq_installed_of_install {s' : Session} (h : s.install override providers = .ok s') :
    ∃ id o p t current, s.overrideNamed override = .ok (id, o) ∧
      s.tableNamed providers = .ok (p, t) ∧ t.get? o.query = some current ∧
      s.isHookOf id current = false ∧ s' = s.installed id o p t current := by
  obtain ⟨⟨id, o⟩, ho, -⟩ := exists_of_bind_eq_ok h
  have h' := h
  rw [install, ho, ok_bind] at h'
  obtain ⟨⟨p, t⟩, ht, -⟩ := exists_of_bind_eq_ok h'
  cases hcurrent : t.get? o.query with
  | none => cases (install_of_absent ho ht hcurrent).symm.trans h
  | some current =>
    cases hhook : s.isHookOf id current with
    | true => cases (install_of_own ho ht hcurrent hhook).symm.trans h
    | false =>
      cases (install_of_other ho ht hcurrent hhook).symm.trans h
      exact ⟨id, o, p, t, current, ho, ht, hcurrent, hhook, rfl⟩

end

/-- A command on tables changes the tables, gives a new list of queries, or installs an override. -/
theorem table_cases (s : Session) (c : TableCommand) :
    (∃ functions providers, (s.table c).2 = { s with functions, providers }) ∨
    (∃ items, (s.table c).2 = { s with memory := (s.memory.newList items).2 }) ∨
    ∃ id o p t current, s.overrides[id]? = some o ∧
      (s.table c).2 = s.installed id o p t current := by
  have same {t : Session} (h : t = s) :
      ∃ functions providers, t = { s with functions, providers } := ⟨s.functions, s.providers, h⟩
  -- a change that fails leaves the session as it is
  have edited {r : Except Fault Session}
      (h : ∀ t, r = .ok t → ∃ providers, t = { s with providers }) :
      ∃ functions providers, (s.changed r).2 = { s with functions, providers } := by
    cases r with
    | error f => exact same rfl
    | ok t =>
      obtain ⟨providers, ht⟩ := h t rfl
      exact ⟨s.functions, providers, ht⟩
  cases c with
  | define function code => exact .inl ⟨_, s.providers, rfl⟩
  | provide providers query code =>
    refine .inl (edited fun t h => ?_)
    cases hp : s.tableNamed providers with
    | error f => rw [hp] at h; cases h
    | ok p => rw [hp] at h; cases h; exact ⟨_, rfl⟩
  | «alias» =>
    refine .inl (edited fun t h => ?_)
    obtain ⟨code, -, h⟩ := exists_of_bind_eq_ok h
    obtain ⟨⟨p, entries⟩, -, h⟩ := exists_of_bind_eq_ok h
    cases h
    exact ⟨_, rfl⟩
  | withdraw =>
    refine .inl (edited fun t h => ?_)
    obtain ⟨⟨p, entries⟩, -, h⟩ := exists_of_bind_eq_ok h
    dsimp only at h
    split at h <;> cases h
    exact ⟨_, rfl⟩
  | queries providers =>
    rw [table]
    split
    · rename_i h
      obtain ⟨⟨p, entries⟩, -, h⟩ := exists_of_bind_eq_ok h
      cases h
      exact .inr (.inl ⟨_, rfl⟩)
    · exact .inl (same rfl)
  | install override providers =>
    rw [table]
    cases hr : s.install override providers with
    | error f => exact .inl (same rfl)
    | ok t =>
      obtain ⟨id, o, p, entries, current, ho, -, -, -, rfl⟩ := eq_installed_of_install hr
      exact .inr (.inr ⟨id, o, p, entries, current, overrides_of_overrideNamed ho, rfl⟩)

/-! ### The configuration of logging -/

/-- The configuration of logging that a command asks for; a fault if it is refused. -/
def requested? (s : Session) : Command → Option (Except Fault Logging)
  | .settings (.configure level json) => some (Logging.ofText level json)
  | .settings .configureFromEnvironment =>
    some (s.environment.settings >>= fun t => Logging.ofText t.level t.json)
  | _ => none

/-- The reply to a command that asks for a configuration of logging. -/
def configured (s : Session) : Except Fault Logging → Except Fault Value × Session
  | .ok l => (.ok (.text l.level.name), { s with sink := s.sink.configure l })
  | .error f => (.error f, s)

theorem configure_eq_configured (s : Session) (level : String) (json : Bool) :
    s.configure level json = s.configured (Logging.ofText level json) := by
  unfold configure
  cases Logging.ofText level json <;> rfl

theorem perform_of_requested {s : Session} {c : Command} {r : Except Fault Logging}
    (h : s.requested? c = some r) : s.perform c = s.configured r := by
  unfold requested? at h
  split at h
  · obtain rfl := Option.some.inj h
    exact configure_eq_configured ..
  · obtain rfl := Option.some.inj h
    rw [perform]
    unfold settings
    dsimp only
    cases s.environment.settings with
    | error f => rfl
    | ok t => exact configure_eq_configured ..
  · cases h

/-- Any other command leaves the sink as it is. -/
theorem sink_perform {s : Session} {c : Command} (h : s.requested? c = none) :
    (s.perform c).2.sink = s.sink := by
  cases c with
  | memory | spell => rfl
  | create c => cases c <;> rfl
  | inspect i => rcases s.inspect_cases i with h | ⟨_, h⟩ <;> rw [perform, h]
  | view c =>
    obtain ⟨_, _, h⟩ := s.view_eq c
    rw [perform, h]
  | table c =>
    rcases s.table_cases c with ⟨_, _, h⟩ | ⟨_, h⟩ | ⟨_, _, _, _, _, -, h⟩ <;> rw [perform, h]
    rfl
  | mark v =>
    obtain ⟨_, h⟩ := s.mark_eq v
    rw [perform, h]
  | settings c =>
    rw [perform]
    cases c with
    | setEnvironment | readLevel | readTiming | showSettings => rfl
    | configure | configureFromEnvironment => cases h
    | readSettings =>
      unfold settings
      dsimp only
      split <;> rfl
    | log e =>
      unfold settings logChecked
      dsimp only
      split <;> rfl

/-! ### Targets -/

/-- A per-thread cache has a part for the current thread, or it gets one. -/
theorem locateConfined_eq_ok {s s' : Session} {id : Nat} {place : Place}
    (h : s.locateConfined id = .ok (place, s')) :
    ∃ c, s.confined[id]? = some c ∧ place.hint = c.hint ∧
      ((c.caches.get? s.thread = some place.id ∧ s' = s) ∨
        (c.caches.get? s.thread = none ∧ place.id = s.resources.size ∧
          s' = { s with
            resources := s.resources.push (.stable { guard := { label := c.labelOn s.thread } })
            confined := s.confined.setIfInBounds id (c.withPart s.thread s.resources.size) })) := by
  unfold locateConfined at h
  split at h
  · cases h
  · rename_i c found
    split at h
    · rename_i r hr
      cases h
      exact ⟨c, found, rfl, .inl ⟨hr, rfl⟩⟩
    · rename_i absent
      cases h
      exact ⟨c, found, rfl, .inr ⟨absent, rfl, rfl⟩⟩

/-- A target is found in a session as it is, or it is a per-thread cache. -/
theorem locate_eq_ok {s s' : Session} {target : Target} {place : Place}
    (h : s.locate target = .ok (place, s')) :
    (s' = s ∧ ∃ name, target = .named name ∧ (s.names.get? name = some (.resource place.id) ∨
        ∃ hint, s.names.get? name = some (.scoped place.id hint))) ∨
      ∃ id, s.locateConfined id = .ok (place, s') := by
  have hartifacts : ∀ {o : Nat}, s.locateArtifacts o = .ok (place, s') →
      ∃ id, s.locateConfined id = .ok (place, s') := by
    intro o ho
    unfold locateArtifacts at ho
    split at ho
    · exact ⟨_, ho⟩
    · cases ho
  cases target with
  | named name =>
    rw [locate] at h
    split at h
    · rename_i hname
      cases h
      exact .inl ⟨rfl, name, rfl, .inl hname⟩
    · rename_i hname
      cases h
      exact .inl ⟨rfl, name, rfl, .inr ⟨_, hname⟩⟩
    · exact .inr ⟨_, h⟩
    · exact .inr (hartifacts h)
    · cases h
  | artifacts o => exact .inr (hartifacts h)
  | common => exact .inr ⟨0, h⟩

end Session

/-! ### Steps -/

namespace Machine

variable (stack : List Frame) (s : Session)

theorem session_reply_eq (r : Except Fault Value × Session) :
    ∃ journal, (reply stack r).session = { r.2 with journal } := by
  obtain ⟨_ | v, t⟩ := r
  · exact t.report_eq _
  · exact ⟨t.journal, rfl⟩

theorem session_copy_cases (v : Value) :
    (copy v stack s).session = s ∨
      ∃ c, (copy v stack s).session = { s with memory := (s.memory.allocate c).2 } := by
  unfold copy
  split
  · split <;> first | exact .inr ⟨_, rfl⟩ | exact .inl rfl
  · split <;> first | exact .inr ⟨_, rfl⟩ | exact .inl rfl
  · split <;> first | exact .inr ⟨_, rfl⟩ | exact .inl rfl
  · exact .inl rfl

/-- What a request refuses, it refuses without a change but for the journal. -/
theorem session_refuse_eq (f : Fault) :
    ∃ resources journal, (refuse f stack s).session = { s with resources, journal } := by
  obtain ⟨journal, h⟩ := s.report_eq f
  exact ⟨s.resources, journal, h⟩

theorem session_get_eq (id : Nat) (key : Value) (compute : Value → Program) :
    ∃ resources journal,
      (get id key compute stack s).session = { s with resources, journal } := by
  unfold get
  split
  · unfold getStable
    split
    · exact session_refuse_eq ..
    · exact ⟨_, s.journal, rfl⟩
    · exact ⟨_, _, rfl⟩
  · unfold getValue
    split
    · exact session_refuse_eq ..
    · exact ⟨_, s.journal, rfl⟩
    · exact ⟨_, _, rfl⟩
  · exact session_refuse_eq ..

theorem session_peek_eq (id : Nat) (key : Value) :
    ∃ resources journal, (peek id key stack s).session = { s with resources, journal } := by
  unfold peek
  split
  · obtain ⟨journal, h⟩ := session_reply_eq stack (_, s)
    exact ⟨s.resources, journal, h⟩
  · split
    · exact session_refuse_eq ..
    · exact ⟨_, s.journal, rfl⟩
  · exact session_refuse_eq ..

theorem session_finish_eq (id : Nat) (key : Spelled) (k : Key) (outcome : Except Fault Value) :
    ∃ resources journal,
      (finish id key k outcome stack s).session = { s with resources, journal } := by
  unfold finish
  split
  · rename_i c _
    let f := c.finish key k outcome
    obtain ⟨journal, h⟩ := (s.setStable id f.cache).foldl_report_eq f.refusals
    dsimp only
    split <;> exact ⟨_, journal, h⟩
  · exact session_refuse_eq ..

/-- Taking a value to a frame changes the current thread, cells and caches, and the journal. -/
theorem session_resume_eq (v : Value) (frame : Frame) : ∃ thread resources journal,
    (resume v frame stack s).session = { s with thread, resources, journal } := by
  cases frame with
  | bind | attempt => exact ⟨s.thread, s.resources, s.journal, rfl⟩
  | thread back => exact ⟨back, s.resources, s.journal, rfl⟩
  | timer label => exact ⟨s.thread, s.resources, _, rfl⟩
  | release id mode =>
    obtain ⟨resources, h⟩ := s.release_eq id mode
    exact ⟨s.thread, resources, s.journal, h⟩
  | computing id key k =>
    obtain ⟨resources, journal, h⟩ := session_finish_eq stack s id key k (.ok v)
    exact ⟨s.thread, resources, journal, h⟩
  | storing id k =>
    rw [resume, deposit]
    split
    · exact ⟨s.thread, _, s.journal, rfl⟩
    · obtain ⟨resources, journal, h⟩ := session_refuse_eq stack s Session.unsuitable
      exact ⟨s.thread, resources, journal, h⟩

/-- So does taking a fault to a frame. -/
theorem session_unwind_eq (f : Fault) (frame : Frame) : ∃ thread resources journal,
    (unwind f frame stack s).session = { s with thread, resources, journal } := by
  cases frame with
  | bind | storing => exact ⟨s.thread, s.resources, s.journal, rfl⟩
  | attempt kinds handler =>
    rw [unwind]
    split <;> exact ⟨s.thread, s.resources, s.journal, rfl⟩
  | thread back => exact ⟨back, s.resources, s.journal, rfl⟩
  | timer label => exact ⟨s.thread, s.resources, _, rfl⟩
  | release id mode =>
    obtain ⟨resources, h⟩ := s.release_eq id mode
    exact ⟨s.thread, resources, s.journal, h⟩
  | computing id key k =>
    obtain ⟨resources, journal, h⟩ := session_finish_eq stack s id key k (.error f)
    exact ⟨s.thread, resources, journal, h⟩

end Machine

end CheckedMemo
