import CheckedMemo.Proofs.Effects
import CheckedMemo.Proofs.Run

/-!
# The same but for timing and logging

Which blocks are timed, and what becomes of log events, is a matter of tuning.  Programs retune one
another if they are the same but for the flags of timed blocks, in the programs themselves and in
the environment (`Program.Retunes`).  Sessions do if they are the same but for the environment's
flag, the configuration of logging and the events in the journal (`Session.Retunes`).

An operation that does not look at the tuning does the same in both sessions: it commutes with
taking the tuning over from another session (`Session.tunedAs`).  What is left are timers, which may
stand on the one stack and not on the other.
-/

namespace CheckedMemo

/-! ### The environment -/

/-- The changes to other variables than the flag for block timers. -/
def otherChanges (changes : List (String × Option String)) : List (String × Option String) :=
  changes.filter (·.1 ≠ timingVariable)

/-- Whether what is set as the flag for block timers is a flag. -/
def SetsFlags (changes : List (String × Option String)) : Prop :=
  ∀ text, (timingVariable, some text) ∈ changes → (readFlag? (Text.strip text)).isSome = true

namespace Environment

variable {env env' : Environment} {changes changes' : List (String × Option String)} {name : String}

/-- The last change of a variable counts. -/
theorem get?_change (env : Environment) (changes : List (String × Option String)) (name : String) :
    (env.change changes).get? name =
      changes.foldl (fun v c => if name = c.1 then c.2 else v) (env.get? name) := by
  induction changes generalizing env with
  | nil => rfl
  | cons c changes ih =>
    obtain ⟨changed, text⟩ := c
    refine (ih _).trans (congrArg (fun v => List.foldl _ v changes) ?_)
    cases text with
    | none => exact Table.get?_erase ..
    | some text => exact Table.get?_insert ..

theorem get?_change_otherChanges (hname : name ≠ timingVariable) :
    (env.change (otherChanges changes)).get? name = (env.change changes).get? name := by
  rw [get?_change, get?_change, otherChanges, List.foldl_filter]
  congr 1
  funext v c
  by_cases hc : c.1 = timingVariable
  · rw [if_neg (by simp [hc]), if_neg (hc ▸ hname)]
  · rw [if_pos (by simp [hc])]

/-- Environments that agree but for the flag for block timers still do after changes that do. -/
theorem get?_change_eq (others : otherChanges changes' = otherChanges changes)
    (h : env'.get? name = env.get? name) (hname : name ≠ timingVariable) :
    (env'.change changes').get? name = (env.change changes).get? name :=
  calc (env'.change changes').get? name
    _ = (env'.change (otherChanges changes')).get? name := (get?_change_otherChanges hname).symm
    _ = (env.change (otherChanges changes)).get? name := by
      rw [others, get?_change, get?_change, h]
    _ = (env.change changes).get? name := get?_change_otherChanges hname

/-- The flag for block timers is valid exactly if the variable holds a flag, if anything. -/
theorem exists_timing_iff : (∃ b, env.timing = .ok b) ↔
    ∀ text, env.get? timingVariable = some text → (readFlag? (Text.strip text)).isSome = true := by
  unfold timing flag read
  cases env.get? timingVariable with
  | none =>
    have hzero : readFlag? (Text.strip "0") = some false := by decide
    rw [Option.getD_none, hzero]
    exact ⟨fun _ _ h => (nomatch h), fun _ => ⟨false, rfl⟩⟩
  | some text =>
    rw [Option.getD_some]
    generalize hflag : readFlag? (Text.strip text) = flag
    cases flag with
    | none =>
      refine ⟨fun ⟨_, h⟩ => (nomatch h), fun h => ?_⟩
      have hsome := h text rfl
      rw [hflag] at hsome
      cases hsome
    | some b =>
      refine ⟨fun _ _ h => ?_, fun _ => ⟨b, rfl⟩⟩
      cases h
      rw [hflag]
      rfl

/-- A change that sets no flag but valid ones leaves the flag for block timers valid. -/
theorem exists_timing_change (h : ∃ b, env.timing = .ok b) (flags : SetsFlags changes) :
    ∃ b, (env.change changes).timing = .ok b := by
  induction changes generalizing env with
  | nil => exact h
  | cons c changes ih =>
    refine ih ?_ fun text hmem => flags text (List.mem_cons_of_mem _ hmem)
    obtain ⟨changed, new⟩ := c
    rw [exists_timing_iff] at h ⊢
    intro text hget
    cases new with
    | none =>
      rw [Table.get?_erase] at hget
      split at hget
      · cases hget
      · exact h text hget
    | some new =>
      rw [Table.get?_insert] at hget
      split at hget
      · rename_i hchanged
        cases hget
        exact flags text (hchanged ▸ List.mem_cons_self)
      · exact h text hget

/-- What the level and the choice of output are does not depend on the flag for block timers. -/
theorem settings_bind_eq (h : ∀ name ≠ timingVariable, env'.get? name = env.get? name)
    (timing : ∃ b, env.timing = .ok b) (timing' : ∃ b, env'.timing = .ok b) {α : Type}
    (f : String → Bool → Except Fault α) :
    (env'.settings >>= fun t => f t.level t.json) = env.settings >>= fun t => f t.level t.json := by
  have hlevel : env'.level = env.level := by
    unfold level read
    rw [h levelVariable (by decide)]
  have hjson : env'.flag jsonVariable = env.flag jsonVariable := by
    unfold flag read
    rw [h jsonVariable (by decide)]
  obtain ⟨b, hb⟩ := timing
  obtain ⟨b', hb'⟩ := timing'
  unfold settings
  rw [hlevel, hjson, hb, hb']
  cases env.level with
  | error f => rfl
  | ok l => cases env.flag jsonVariable <;> rfl

end Environment

/-! ### Programs -/

/-- Whether an event can be rendered, however logging is configured. -/
def Event.IsRenderable (e : Event) : Prop := ∀ sink, ∃ lines, e.lines sink = .ok lines

/-- Whether two commands are the same, but that they may set other flags for block timers.  They
give no settings of the environment, and no event that they log fails to be rendered. -/
inductive SettingsCommand.Retunes : SettingsCommand → SettingsCommand → Prop where
  | setEnvironment {changes changes' : List (String × Option String)}
    (others : otherChanges changes' = otherChanges changes) (flags : SetsFlags changes)
    (flags' : SetsFlags changes') : Retunes (.setEnvironment changes) (.setEnvironment changes')
  | showSettings (settings : Settings) : Retunes (.showSettings settings) (.showSettings settings)
  | configure (level : String) (json : Bool) :
    Retunes (.configure level json) (.configure level json)
  | configureFromEnvironment : Retunes .configureFromEnvironment .configureFromEnvironment
  | log {event : Event} (renderable : event.IsRenderable) : Retunes (.log event) (.log event)

/-- Whether two commands are the same but for tuning. -/
inductive Command.Retunes : Command → Command → Prop where
  | memory (command : Memory.Command) : Retunes (.memory command) (.memory command)
  | inspect (inspection : Inspection) : Retunes (.inspect inspection) (.inspect inspection)
  | view (command : ViewCommand) : Retunes (.view command) (.view command)
  | create (creation : Creation) : Retunes (.create creation) (.create creation)
  | table (command : TableCommand) : Retunes (.table command) (.table command)
  | settings {command command' : SettingsCommand} (h : command.Retunes command') :
    Retunes (.settings command) (.settings command')
  | mark (value : Value) : Retunes (.mark value) (.mark value)
  | spell (value : Value) : Retunes (.spell value) (.spell value)

/-- Whether two programs are the same but for tuning: any block may be timed in one of them and not
in the other. -/
inductive Program.Retunes : Program → Program → Prop where
  | done (value : Value) : Retunes (.done value) (.done value)
  | fail (failure : Thrown) : Retunes (.fail failure) (.fail failure)
  | perform {command command' : Command} (h : command.Retunes command') :
    Retunes (.perform command) (.perform command')
  | bind {first first' : Program} {next next' : Value → Program} (hfirst : Retunes first first')
    (hnext : ∀ v, Retunes (next v) (next' v)) : Retunes (.bind first next) (.bind first' next')
  | attempt {body body' : Program} {handler handler' : Fault → Program}
    (hbody : Retunes body body') (kinds : List Kind)
    (hhandler : ∀ f, Retunes (handler f) (handler' f)) :
    Retunes (.attempt body kinds handler) (.attempt body' kinds handler')
  | on (thread : Thread) {body body' : Program} (hbody : Retunes body body') :
    Retunes (.on thread body) (.on thread body')
  | timed (label : String) (enabled enabled' : Option Bool) {body body' : Program}
    (hbody : Retunes body body') :
    Retunes (.timed label enabled body) (.timed label enabled' body')
  | reach (target : Target) {next next' : Place → Program}
    (hnext : ∀ place, Retunes (next place) (next' place)) :
    Retunes (.reach target next) (.reach target next')
  | view (place : Place) (mode : Mode) (key : Value) {body body' : Value → Program}
    (hbody : ∀ v, Retunes (body v) (body' v)) :
    Retunes (.view place mode key body) (.view place mode key body')
  | get (place : Place) (key : Value) {compute compute' : Value → Program}
    (hcompute : ∀ v, Retunes (compute v) (compute' v)) :
    Retunes (.get place key compute) (.get place key compute')
  | peek (place : Place) (key : Value) : Retunes (.peek place key) (.peek place key)
  | copy (value : Value) : Retunes (.copy value) (.copy value)
  | store {body body' : Call → Program} {next next' : Nat → Program}
    (hbody : ∀ call, Retunes (body call) (body' call))
    (hnext : ∀ code, Retunes (next code) (next' code)) :
    Retunes (.store body next) (.store body' next')
  | locate (source : Source) {next next' : Nat → Program}
    (hnext : ∀ code, Retunes (next code) (next' code)) :
    Retunes (.locate source next) (.locate source next')
  | invoke (code : Nat) (call : Call) : Retunes (.invoke code call) (.invoke code call)
  | resolve (override providers : String) {next next' : Nat → Nat → Program}
    (hnext : ∀ id table, Retunes (next id table) (next' id table)) :
    Retunes (.resolve override providers next) (.resolve override providers next')
  | fetch (override table : Nat) (call : Call) :
    Retunes (.fetch override table call) (.fetch override table call)

theorem SettingsCommand.Retunes.symm {c c' : SettingsCommand} (h : c.Retunes c') :
    c'.Retunes c := by
  cases h with
  | setEnvironment others flags flags' => exact .setEnvironment others.symm flags' flags
  | showSettings settings => exact .showSettings settings
  | configure level json => exact .configure level json
  | configureFromEnvironment => exact .configureFromEnvironment
  | log renderable => exact .log renderable

theorem Command.Retunes.symm {c c' : Command} (h : c.Retunes c') : c'.Retunes c := by
  cases h with
  | settings h => exact .settings h.symm
  | memory | inspect | view | create | table | mark | spell => constructor

namespace Program.Retunes

theorem symm {p q : Program} (h : p.Retunes q) : q.Retunes p := by
  induction h with
  | done value => exact .done value
  | fail failure => exact .fail failure
  | perform h => exact .perform h.symm
  | bind _ _ ihfirst ihnext => exact .bind ihfirst ihnext
  | attempt _ kinds _ ihbody ihhandler => exact .attempt ihbody kinds ihhandler
  | on thread _ ih => exact .on thread ih
  | timed label enabled enabled' _ ih => exact .timed label enabled' enabled ih
  | reach target _ ih => exact .reach target ih
  | view place mode key _ ih => exact .view place mode key ih
  | get place key _ ih => exact .get place key ih
  | peek place key => exact .peek place key
  | copy value => exact .copy value
  | store _ _ ihbody ihnext => exact .store ihbody ihnext
  | locate source _ ih => exact .locate source ih
  | invoke code call => exact .invoke code call
  | resolve override providers _ ih => exact .resolve override providers ih
  | fetch override table call => exact .fetch override table call

theorem andThen {first first' second second' : Program} (h : first.Retunes first')
    (h' : second.Retunes second') :
    (Program.andThen first second).Retunes (Program.andThen first' second') := .bind h fun _ => h'

theorem branch {test test' yes yes' no no' : Program} (h : test.Retunes test')
    (hyes : yes.Retunes yes') (hno : no.Retunes no') :
    (Program.branch test yes no).Retunes (Program.branch test' yes' no') := by
  refine .bind h fun v => ?_
  split
  · exact hyes
  · exact hno

theorem populate (place : Place) (key : Value) {compute compute' : Value → Program}
    (h : ∀ v, (compute v).Retunes (compute' v)) :
    (Program.populate place key compute).Retunes (Program.populate place key compute') :=
  .andThen (.get place key h) (.done .null)

/-- What a hook does is not a matter of tuning. -/
theorem hook (o : Override) (id behind : Nat) (call : Call) :
    (o.hook id behind call).Retunes (o.hook id behind call) := by
  have hextraction : (o.extraction call).Retunes (o.extraction call) := by
    refine .bind (.perform (.spell _)) fun v => ?_
    split <;> exact .timed _ _ _ (.invoke ..)
  have hcapture : (o.capture id call).Retunes (o.capture id call) :=
    .reach _ fun place => .branch (.perform (.inspect _)) (.done _)
      (.bind hextraction fun _ => .populate _ _ fun _ => .done _)
  exact .andThen hcapture (.invoke ..)

theorem fetching (o : Override) (id table : Nat) (call : Call) :
    (o.fetch id table call).Retunes (o.fetch id table call) :=
  .reach _ fun _ => .andThen
    (.branch (.perform (.inspect _)) (.done _) (.locate _ fun _ => .invoke ..))
    (.perform (.inspect _))

end Program.Retunes

/-- Whether stored code is the same but for tuning. -/
inductive Code.Retunes : Code → Code → Prop where
  | body {run run' : Call → Program} (h : ∀ call, (run call).Retunes (run' call)) :
    Retunes (.body run) (.body run')
  | hook (override behind : Nat) : Retunes (.hook override behind) (.hook override behind)

theorem Code.Retunes.symm {c c' : Code} (h : c.Retunes c') : c'.Retunes c := by
  cases h with
  | body h => exact .body fun call => (h call).symm
  | hook override behind => exact .hook override behind

/-- The value that an entry notes, if it is no event. -/
def Entry.noted? : Entry → Option Snapshot
  | .mark seen => some seen
  | .event .. => none

namespace Session

variable {s t s' : Session}

/-- The values that programs have noted, in order. -/
def noted (s : Session) : List Snapshot := s.journal.toList.filterMap Entry.noted?

/-- The session `s` with what is a matter of tuning, and the code and the journal, as in `t`. -/
def tunedAs (s t : Session) : Session :=
  { s with code := t.code, environment := t.environment, sink := t.sink, journal := t.journal }

/-- Whether two sessions are the same but for tuning: the second differs from the first only in its
flag for block timers, which is valid in both, in the configuration of logging and in the events in
its journal, and its code is the same but for tuning. -/
structure Retunes (s t : Session) : Prop where
  eq : t = s.tunedAs t
  size : t.code.size = s.code.size
  code (n : Nat) (c c' : Code) (hc : s.code[n]? = some c) (hc' : t.code[n]? = some c') :
    c.Retunes c'
  environment (name : String) (h : name ≠ timingVariable) :
    t.environment.get? name = s.environment.get? name
  timing : ∃ b, s.environment.timing = .ok b
  timing' : ∃ b, t.environment.timing = .ok b
  noted : t.noted = s.noted

namespace Retunes

theorem symm (h : s.Retunes t) : t.Retunes s := by
  refine ⟨?_, h.size.symm, fun n c c' hc hc' => (h.code n c' c hc' hc).symm,
    fun name hne => (h.environment name hne).symm, h.timing', h.timing, h.noted.symm⟩
  rw [h.eq]
  rfl

/-- Whatever leaves the tuning, the code and the journal alone leaves the sessions the same but for
tuning. -/
theorem of_tunedAs (h : s.Retunes t) (kept : s'.tunedAs s = s') : s'.Retunes (s'.tunedAs t) := by
  obtain ⟨-, size, code, environment, timing, timing', noted⟩ := h
  rw [← kept]
  exact ⟨rfl, size, code, environment, timing, timing', noted⟩

theorem code_eq_none (h : s.Retunes t) {n : Nat} (hc : s.code[n]? = none) : t.code[n]? = none := by
  rw [Array.getElem?_eq_none_iff, h.size]
  exact Array.getElem?_eq_none_iff.mp hc

theorem exists_code (h : s.Retunes t) {n : Nat} {c : Code} (hc : s.code[n]? = some c) :
    ∃ c', t.code[n]? = some c' ∧ c.Retunes c' := by
  obtain ⟨hn, -⟩ := Array.getElem?_eq_some_iff.mp hc
  have hc' := Array.getElem?_eq_getElem (h.size.symm ▸ hn : n < t.code.size)
  exact ⟨_, hc', h.code n c _ hc hc'⟩

/-! ### What is logged and configured -/

/-- The configuration of logging and the events may be other ones. -/
theorem relog (h : s.Retunes t) (sink : Sink) {journal : Array Entry}
    (hnoted : journal.toList.filterMap Entry.noted? = s.noted) :
    { s with sink, journal }.Retunes t := by
  obtain ⟨eq, size, code, environment, timing, timing', noted⟩ := h
  refine ⟨?_, size, code, environment, timing, timing', noted.trans hnoted.symm⟩
  rw [eq]
  rfl

theorem log (h : s.Retunes t) (e : Event) : (s.log e).Retunes t := by
  refine h.relog s.sink ?_
  rw [Array.toList_push, List.filterMap_append]
  exact List.append_nil _

theorem log_log (h : s.Retunes t) (e : Event) : (s.log e).Retunes (t.log e) :=
  ((h.log e).symm.log e).symm

theorem report (h : s.Retunes t) (f : Fault) : (s.report f).Retunes (t.report f) := by
  unfold Session.report
  split
  · exact h.log_log _
  · exact h

theorem foldl_report (h : s.Retunes t) (fs : List Fault) :
    (fs.foldl Session.report s).Retunes (fs.foldl Session.report t) := by
  induction fs generalizing s t with
  | nil => exact h
  | cons f fs ih => exact ih (h.report f)

end Retunes

/-! ### Operations that do not look at the tuning -/

/-- A result with the tuning of another session. -/
def resultTunedAs {α : Type} (r : α × Session) (t : Session) : α × Session := (r.1, r.2.tunedAs t)

section

variable (s t : Session)

theorem release_tunedAs (id : Nat) (mode : Mode) :
    (s.tunedAs t).release id mode = (s.release id mode).tunedAs t := by
  unfold release
  rw [show (s.tunedAs t).resources = s.resources from rfl]
  cases s.resources[id]? <;> rfl

theorem dropNamed_tunedAs (name : String) :
    (s.tunedAs t).dropNamed name = (s.dropNamed name).tunedAs t := by
  unfold dropNamed
  rw [show (s.tunedAs t).views = s.views from rfl]
  cases s.views.get? name with
  | none => rfl
  | some v =>
    dsimp only
    rw [release_tunedAs]
    rfl

theorem openView_tunedAs (id : Nat) (mode : Mode) (key : Value) :
    (s.tunedAs t).openView id mode key =
      (s.openView id mode key).map fun o => ⟨o.content, o.session.tunedAs t⟩ := by
  unfold openView
  rw [show (s.tunedAs t).resources = s.resources from rfl,
    show (s.tunedAs t).request key = s.request key from rfl]
  cases s.resources[id]? with
  | none => rfl
  | some r =>
    dsimp only
    cases r.guard.allow mode (s.request key) <;> rfl

theorem locateConfined_tunedAs (id : Nat) :
    (s.tunedAs t).locateConfined id = (s.locateConfined id).map (resultTunedAs · t) := by
  unfold locateConfined
  rw [show (s.tunedAs t).confined = s.confined from rfl,
    show (s.tunedAs t).thread = s.thread from rfl]
  cases s.confined[id]? with
  | none => rfl
  | some c =>
    dsimp only
    cases c.caches.get? s.thread <;> rfl

theorem locateArtifacts_tunedAs (override : Nat) :
    (s.tunedAs t).locateArtifacts override =
      (s.locateArtifacts override).map (resultTunedAs · t) := by
  unfold locateArtifacts
  rw [show (s.tunedAs t).overrides = s.overrides from rfl]
  cases s.overrides[override]? with
  | none => rfl
  | some o => exact s.locateConfined_tunedAs t o.artifacts

theorem locate_tunedAs (target : Target) :
    (s.tunedAs t).locate target = (s.locate target).map (resultTunedAs · t) := by
  cases target with
  | artifacts override => exact s.locateArtifacts_tunedAs t override
  | common => exact s.locateConfined_tunedAs t 0
  | named name =>
    rw [locate, locate, show (s.tunedAs t).names = s.names from rfl]
    cases s.names.get? name with
    | none => rfl
    | some handle =>
      cases handle with
      | resource | «scoped» | providers => rfl
      | confined id => exact s.locateConfined_tunedAs t id
      | override id => exact s.locateArtifacts_tunedAs t id

theorem view_tunedAs (c : ViewCommand) :
    (s.tunedAs t).view c = resultTunedAs (s.view c) t := by
  cases c with
  | isOpen name => rfl
  | openAs name place mode key =>
    rw [view, view, openNamed, openNamed, openView_tunedAs]
    cases s.openView place.id mode key with
    | error f => rfl
    | ok o =>
      dsimp only [Except.map]
      rw [dropNamed_tunedAs]
      rfl
  | close name failure =>
    rw [view, view]
    unfold closeNamed
    rw [show (s.tunedAs t).views = s.views from rfl, dropNamed_tunedAs]
    split
    · cases failure <;> rfl
    · rfl

theorem inspect_tunedAs (i : Inspection) :
    (s.tunedAs t).inspect i = resultTunedAs (s.inspect i) t := by
  cases i with
  | stats p =>
    rw [inspect, inspect, stats, stats,
      show (s.tunedAs t).resource p.id = s.resource p.id from rfl,
      show (s.tunedAs t).memory = s.memory from rfl]
    cases s.resource p.id >>= Resource.stats <;> rfl
  | contains | size | label | readers | isBorrowed | retrieve => rfl

theorem create_tunedAs (c : Creation) : (s.tunedAs t).create c = (s.create c).tunedAs t := by
  cases c <;> rfl

theorem settingsValue_tunedAs (settings : Settings) :
    (s.tunedAs t).settingsValue settings = resultTunedAs (s.settingsValue settings) t := by
  unfold settingsValue
  rw [show (s.tunedAs t).memory = s.memory from rfl]
  generalize s.memory.run _ = x
  rfl

/-- Of the commands on tables only an installation stores code and logs an event. -/
theorem table_tunedAs {c : TableCommand}
    (h : ∀ override providers, c ≠ .install override providers) :
    (s.tunedAs t).table c = resultTunedAs (s.table c) t := by
  have hnamed (name : String) : (s.tunedAs t).tableNamed name = s.tableNamed name := rfl
  cases c with
  | define => rfl
  | provide providers query code =>
    rw [table, table, hnamed]
    cases s.tableNamed providers <;> rfl
  | «alias» providers query otherProviders otherQuery =>
    rw [table, table, aliasEntry, aliasEntry, hnamed,
      show (s.tunedAs t).codeAt (.provider providers query) =
        s.codeAt (.provider providers query) from rfl]
    cases s.codeAt (.provider providers query) with
    | error f => rfl
    | ok code => cases s.tableNamed otherProviders <;> rfl
  | withdraw providers query =>
    rw [table, table, withdraw, withdraw, hnamed]
    cases s.tableNamed providers with
    | error f => rfl
    | ok p =>
      rw [ok_bind, ok_bind]
      dsimp only
      split <;> rfl
  | queries providers =>
    rw [table, table, queries, queries, hnamed]
    cases s.tableNamed providers <;> rfl
  | install override providers => exact absurd rfl (h override providers)

end

/-! ### Commands -/

/-- The replies are the same, and the sessions are the same but for tuning. -/
structure RepliesRetune (x y : Except Fault Value × Session) : Prop where
  reply : y.1 = x.1
  session : x.2.Retunes y.2

namespace Retunes

theorem release (h : s.Retunes t) (id : Nat) (mode : Mode) :
    (s.release id mode).Retunes (t.release id mode) := by
  rw [h.eq, release_tunedAs]
  exact h.of_tunedAs (s.release_tunedAs s id mode).symm

theorem setResource (h : s.Retunes t) (id : Nat) (r : Resource) :
    (s.setResource id r).Retunes (t.setResource id r) := by
  rw [h.eq]
  exact h.of_tunedAs rfl

theorem setTable (h : s.Retunes t) (id : Nat) (table : Table String Nat) :
    (s.setTable id table).Retunes (t.setTable id table) := by
  rw [h.eq]
  exact h.of_tunedAs rfl

theorem thread (h : s.Retunes t) (thread : Thread) :
    { s with thread }.Retunes { t with thread } := by
  rw [h.eq]
  exact h.of_tunedAs rfl

theorem memory (h : s.Retunes t) (memory : Memory) :
    { s with memory }.Retunes { t with memory } := by
  rw [h.eq]
  exact h.of_tunedAs rfl

theorem openView (h : s.Retunes t) (id : Nat) (mode : Mode) (key : Value) :
    (∃ f, s.openView id mode key = .error f ∧ t.openView id mode key = .error f) ∨
      ∃ o o', s.openView id mode key = .ok o ∧ t.openView id mode key = .ok o' ∧
        o'.content = o.content ∧ o.session.Retunes o'.session := by
  have hs := s.openView_tunedAs s id mode key
  rw [h.eq, openView_tunedAs]
  change s.openView id mode key = _ at hs
  cases ho : s.openView id mode key with
  | error f => exact .inl ⟨f, rfl, rfl⟩
  | ok o =>
    rw [ho] at hs
    have hkept : o = ⟨o.content, o.session.tunedAs s⟩ := Except.ok.inj hs
    exact .inr ⟨o, _, rfl, rfl, rfl, h.of_tunedAs (congrArg Opened.session hkept).symm⟩

theorem locate (h : s.Retunes t) (target : Target) :
    (∃ f, s.locate target = .error f ∧ t.locate target = .error f) ∨
      ∃ place s' t', s.locate target = .ok (place, s') ∧ t.locate target = .ok (place, t') ∧
        s'.Retunes t' := by
  have hs := s.locate_tunedAs s target
  rw [h.eq, locate_tunedAs]
  change s.locate target = _ at hs
  cases hfound : s.locate target with
  | error f => exact .inl ⟨f, rfl, rfl⟩
  | ok found =>
    obtain ⟨place, s'⟩ := found
    rw [hfound] at hs
    have hkept : (place, s') = (place, s'.tunedAs s) := Except.ok.inj hs
    exact .inr ⟨place, s', _, rfl, rfl, h.of_tunedAs (congrArg Prod.snd hkept).symm⟩

/-! ### Commands -/

/-- A command that does not look at the tuning. -/
theorem replies (h : s.Retunes t) (f : Session → Except Fault Value × Session)
    (hf : ∀ t, f (s.tunedAs t) = resultTunedAs (f s) t) : RepliesRetune (f s) (f t) := by
  rw [h.eq, hf]
  exact ⟨rfl, h.of_tunedAs (congrArg Prod.snd (hf s)).symm⟩

theorem addCode (h : s.Retunes t) {c c' : Code} (hc : c.Retunes c') :
    (t.addCode c').1 = (s.addCode c).1 ∧ (s.addCode c).2.Retunes (t.addCode c').2 := by
  refine ⟨h.size, ?_, ?_, fun n c₁ c₁' h₁ h₁' => ?_, h.environment, h.timing, h.timing', h.noted⟩
  · show ({ t with code := _ } : Session) = _
    rw [h.eq]
    rfl
  · show (t.code.push c').size = (s.code.push c).size
    rw [Array.size_push, Array.size_push, h.size]
  · change (s.code.push c)[n]? = _ at h₁
    change (t.code.push c')[n]? = _ at h₁'
    rw [Array.getElem?_push] at h₁ h₁'
    rw [h.size] at h₁'
    split at h₁
    · rename_i hn
      rw [if_pos hn] at h₁'
      cases h₁
      cases h₁'
      exact hc
    · rename_i hn
      rw [if_neg hn] at h₁'
      exact h.code n c₁ c₁' h₁ h₁'

theorem isHookOf_eq (h : s.Retunes t) (override code : Nat) :
    t.isHookOf override code = s.isHookOf override code := by
  unfold isHookOf
  cases hc : s.code[code]? with
  | none => rw [h.code_eq_none hc]
  | some c =>
    obtain ⟨c', hc', hretunes⟩ := h.exists_code hc
    rw [hc']
    cases hretunes <;> rfl

theorem install (h : s.Retunes t) (override providers : String) :
    RepliesRetune (s.table (.install override providers))
      (t.table (.install override providers)) := by
  have hoverride : t.overrideNamed override = s.overrideNamed override := by rw [h.eq]; rfl
  have htable : t.tableNamed providers = s.tableNamed providers := by rw [h.eq]; rfl
  rw [table, table, Session.install, Session.install, hoverride, htable]
  cases s.overrideNamed override with
  | error f => exact ⟨rfl, h⟩
  | ok o =>
    obtain ⟨id, o⟩ := o
    cases s.tableNamed providers with
    | error f => exact ⟨rfl, h⟩
    | ok p =>
      obtain ⟨p, entries⟩ := p
      simp only [ok_bind, hooked]
      cases entries.get? o.query with
      | none => exact ⟨rfl, h⟩
      | some current =>
        dsimp only
        rw [h.isHookOf_eq]
        split
        · exact ⟨rfl, h⟩
        · obtain ⟨hnumber, hadded⟩ := h.addCode (.hook id current)
          rw [hnumber]
          exact ⟨rfl, (hadded.setTable p _).log_log _⟩

theorem table (h : s.Retunes t) (c : TableCommand) : RepliesRetune (s.table c) (t.table c) := by
  by_cases hc : ∃ override providers, c = .install override providers
  · obtain ⟨override, providers, rfl⟩ := hc
    exact h.install override providers
  · exact h.replies (·.table c) fun t => s.table_tunedAs t fun override providers heq =>
      hc ⟨override, providers, heq⟩

/-- A configuration of logging that both are asked for. -/
theorem configured (h : s.Retunes t) (r : Except Fault Logging) :
    RepliesRetune (s.configured r) (t.configured r) := by
  cases r with
  | error f => exact ⟨rfl, h⟩
  | ok l =>
    refine ⟨rfl, ?_⟩
    have hleft : { s with sink := s.sink.configure l }.Retunes t := h.relog _ rfl
    exact (hleft.symm.relog (t.sink.configure l) rfl).symm

theorem settings (h : s.Retunes t) {c c' : SettingsCommand} (hc : c.Retunes c') :
    RepliesRetune (s.settings c) (t.settings c') := by
  cases hc with
  | setEnvironment others flags flags' =>
    refine ⟨rfl, ?_, h.size, h.code, fun name hname => ?_, ?_, ?_, h.noted⟩
    · show ({ t with environment := _ } : Session) = _
      rw [h.eq]
      rfl
    · exact Environment.get?_change_eq others (h.environment name hname) hname
    · exact Environment.exists_timing_change h.timing flags
    · exact Environment.exists_timing_change h.timing' flags'
  | showSettings u => exact h.replies (·.settingsValue u) fun t => s.settingsValue_tunedAs t u
  | configure level json =>
    have hs (s : Session) : s.settings (.configure level json) = _ := s.configure_eq_configured ..
    rw [hs, hs]
    exact h.configured _
  | configureFromEnvironment =>
    have hs (s : Session) : s.settings .configureFromEnvironment = _ :=
      perform_of_requested (s := s) (c := .settings .configureFromEnvironment) rfl
    rw [hs, hs, Environment.settings_bind_eq h.environment h.timing h.timing']
    exact h.configured _
  | @log event renderable =>
    obtain ⟨lines, hs⟩ := renderable s.sink
    obtain ⟨lines', ht⟩ := renderable t.sink
    unfold Session.settings logChecked
    dsimp only
    rw [hs, ht]
    exact ⟨rfl, h.log_log event⟩

theorem mark (h : s.Retunes t) (v : Value) : RepliesRetune (s.mark v) (t.mark v) := by
  have hmemory : t.memory = s.memory := by rw [h.eq]; rfl
  unfold Session.mark
  rw [hmemory]
  cases s.memory.written v with
  | error f => exact ⟨rfl, h⟩
  | ok seen =>
    refine ⟨rfl, ?_, h.size, h.code, h.environment, h.timing, h.timing', ?_⟩
    · rw [h.eq]
      rfl
    · show (t.journal.push _).toList.filterMap _ = (s.journal.push _).toList.filterMap _
      rw [Array.toList_push, Array.toList_push, List.filterMap_append, List.filterMap_append]
      exact congrArg (· ++ [seen]) h.noted

theorem perform (h : s.Retunes t) {c c' : Command} (hc : c.Retunes c') :
    RepliesRetune (s.perform c) (t.perform c') := by
  cases hc with
  | memory c => exact h.replies (·.onMemory (·.run c)) fun _ => rfl
  | inspect i => exact h.replies (·.inspect i) fun t => s.inspect_tunedAs t i
  | view c => exact h.replies (·.view c) fun t => s.view_tunedAs t c
  | create c =>
    exact h.replies (·.perform (.create c)) fun t => congrArg (Prod.mk _) (s.create_tunedAs t c)
  | table c => exact h.table c
  | settings hc => exact h.settings hc
  | mark v => exact h.mark v
  | spell v => exact h.replies (·.perform (.spell v)) fun _ => rfl

end Retunes

end Session

end CheckedMemo
