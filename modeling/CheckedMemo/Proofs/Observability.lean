import CheckedMemo.Proofs.Tuning
import Mathlib.Data.List.Forall2

/-!
# Timing and logging change nothing

Two sessions that are the same but for tuning, and for programs that do nothing but configure
logging or log an event, do the same.  Between the two the frames of timers are all that need not
match: one machine passes its timers while the other one waits (`Machine.Retunes.catch_up`), and
every other step is taken by both (`Machine.Retunes.step_eval` and `step_frames`).

The main statement is `tuning_changes_nothing`.
-/

namespace CheckedMemo

/-! ### Stacks and machines -/

/-- Whether two frames are the same but for tuning; neither is a timer. -/
inductive Frame.Retunes : Frame → Frame → Prop where
  | bind {next next' : Value → Program} (h : ∀ v, (next v).Retunes (next' v)) :
    Retunes (.bind next) (.bind next')
  | attempt (kinds : List Kind) {handler handler' : Fault → Program}
    (h : ∀ f, (handler f).Retunes (handler' f)) :
    Retunes (.attempt kinds handler) (.attempt kinds handler')
  | thread (back : Thread) : Retunes (.thread back) (.thread back)
  | release (id : Nat) (mode : Mode) : Retunes (.release id mode) (.release id mode)
  | computing (id : Nat) (key : Spelled) (k : Key) :
    Retunes (.computing id key k) (.computing id key k)
  | storing (id : Nat) (k : Key) : Retunes (.storing id k) (.storing id k)

/-- Whether two stacks are the same but for tuning: timers may stand anywhere on either. -/
inductive StackRetunes : List Frame → List Frame → Prop where
  | nil : StackRetunes [] []
  | cons {frame frame' : Frame} {rest rest' : List Frame} (head : frame.Retunes frame')
    (tail : StackRetunes rest rest') : StackRetunes (frame :: rest) (frame' :: rest')
  | timer (label : String) {rest rest' : List Frame} (tail : StackRetunes rest rest') :
    StackRetunes (.timer label :: rest) rest'
  | timer' (label : String) {rest rest' : List Frame} (tail : StackRetunes rest rest') :
    StackRetunes rest (.timer label :: rest')

/-- Whether two controls are the same but for tuning. -/
inductive Control.Retunes : Control → Control → Prop where
  | eval {p q : Program} (h : p.Retunes q) : Retunes (.eval p) (.eval q)
  | give (v : Value) : Retunes (.give v) (.give v)
  | raise (f : Fault) : Retunes (.raise f) (.raise f)

theorem Frame.Retunes.symm {frame frame' : Frame} (h : frame.Retunes frame') :
    frame'.Retunes frame := by
  cases h with
  | bind h => exact .bind fun v => (h v).symm
  | attempt kinds h => exact .attempt kinds fun f => (h f).symm
  | thread | release | computing | storing => constructor

theorem StackRetunes.symm {stack stack' : List Frame} (h : StackRetunes stack stack') :
    StackRetunes stack' stack := by
  induction h with
  | nil => exact .nil
  | cons head _ ih => exact .cons head.symm ih
  | timer label _ ih => exact .timer' label ih
  | timer' label _ ih => exact .timer label ih

/-- Timers do not matter. -/
theorem StackRetunes.of_timer' {label : String} {stack rest' : List Frame}
    (h : StackRetunes stack (.timer label :: rest')) : StackRetunes stack rest' := by
  generalize hstack : Frame.timer label :: rest' = stack' at h
  induction h with
  | nil => cases hstack
  | cons head =>
    cases hstack
    cases head
  | timer label _ ih => exact .timer label (ih hstack)
  | timer' label tail =>
    cases hstack
    exact tail

theorem StackRetunes.of_timer {label : String} {stack' rest : List Frame}
    (h : StackRetunes (.timer label :: rest) stack') : StackRetunes rest stack' :=
  h.symm.of_timer'.symm

theorem Control.Retunes.symm {c c' : Control} (h : c.Retunes c') : c'.Retunes c := by
  cases h with
  | eval h => exact .eval h.symm
  | give v => exact .give v
  | raise f => exact .raise f

/-- An outcome is not a matter of tuning. -/
theorem Control.Retunes.eq_of_isOutcome {c c' : Control} (h : c.Retunes c')
    (hc : c.isOutcome = true) : c' = c := by
  cases h with
  | eval => cases hc
  | give | raise => rfl

namespace Machine

/-- Whether two machines are at the same point of sessions that are the same but for tuning. -/
structure Retunes (m n : Machine) : Prop where
  control : m.control.Retunes n.control
  stack : StackRetunes m.stack n.stack
  session : m.session.Retunes n.session

variable {m m' n : Machine} {stack stack' : List Frame} {s t : Session} {p q : Program}

theorem Retunes.symm (h : m.Retunes n) : n.Retunes m :=
  ⟨h.control.symm, h.stack.symm, h.session.symm⟩

/-! ### One step -/

theorem retunes_refuse (hstack : StackRetunes stack stack') (h : s.Retunes t) (f : Fault) :
    (refuse f stack s).Retunes (refuse f stack' t) :=
  ⟨.raise f, hstack, h.report f⟩

theorem retunes_reply (hstack : StackRetunes stack stack')
    {x y : Except Fault Value × Session} (h : Session.RepliesRetune x y) :
    (reply stack x).Retunes (reply stack' y) := by
  obtain ⟨hreply, hsession⟩ := h
  obtain ⟨x, s⟩ := x
  obtain ⟨y, t⟩ := y
  obtain rfl : y = x := hreply
  cases y with
  | error f => exact retunes_refuse hstack hsession f
  | ok v => exact ⟨.give v, hstack, hsession⟩

theorem retunes_get (hstack : StackRetunes stack stack') (h : s.Retunes t) (id : Nat) (key : Value)
    {compute compute' : Value → Program} (hcompute : ∀ v, (compute v).Retunes (compute' v)) :
    (get id key compute stack s).Retunes (get id key compute' stack' t) := by
  have hresources : t.resources = s.resources := by rw [h.eq]; rfl
  have hthread : t.thread = s.thread := by rw [h.eq]; rfl
  have hrequest : t.request key = s.request key := by rw [h.eq]; rfl
  unfold get
  rw [hresources]
  split
  · unfold getStable
    rw [hthread, hrequest]
    split
    · exact retunes_refuse hstack h _
    · exact ⟨.give _, hstack, h.setResource id _⟩
    · exact ⟨.eval (hcompute key), .cons (.computing ..) hstack, (h.setResource id _).log_log _⟩
  · unfold getValue
    rw [hrequest]
    split
    · exact retunes_refuse hstack h _
    · exact ⟨.eval (.copy _), .cons (.release ..) hstack, h.setResource id _⟩
    · exact ⟨.eval (hcompute key), .cons (.storing ..) (.cons (.release ..) hstack),
        (h.setResource id _).log_log _⟩
  · exact retunes_refuse hstack h _

theorem retunes_peek (hstack : StackRetunes stack stack') (h : s.Retunes t) (id : Nat)
    (key : Value) : (peek id key stack s).Retunes (peek id key stack' t) := by
  have hresources : t.resources = s.resources := by rw [h.eq]; rfl
  have hrequest : t.request key = s.request key := by rw [h.eq]; rfl
  unfold peek
  rw [hresources, hrequest]
  split
  · exact retunes_reply hstack ⟨rfl, h⟩
  · split
    · exact retunes_refuse hstack h _
    · exact ⟨.eval (.copy _), .cons (.release ..) hstack, h.setResource id _⟩
  · exact retunes_refuse hstack h _

theorem retunes_copy (hstack : StackRetunes stack stack') (h : s.Retunes t) (v : Value) :
    (copy v stack s).Retunes (copy v stack' t) := by
  have hmemory : t.memory = s.memory := by rw [h.eq]; rfl
  have same (v : Value) : (⟨.give v, stack, s⟩ : Machine).Retunes ⟨.give v, stack', t⟩ :=
    ⟨.give v, hstack, h⟩
  unfold copy
  rw [hmemory]
  split
  case h_4 => exact same _
  all_goals
    split
    case h_4 => exact ⟨.eval (.invoke ..), hstack, h⟩
    case h_5 => exact same _
    all_goals exact ⟨.give _, hstack, h.memory _⟩

/-- A block may be timed in the one session and not in the other. -/
theorem retunes_time (hstack : StackRetunes stack stack') (h : s.Retunes t) (label : String)
    (enabled enabled' : Option Bool) (hbody : p.Retunes q) :
    (time label enabled p stack s).Retunes (time label enabled' q stack' t) := by
  have hflag {env : Environment} (hb : ∃ b, env.timing = .ok b) (enabled : Option Bool) :
      ∃ b, enabled.elim env.timing .ok = .ok b := by
    cases enabled with
    | none => exact hb
    | some b => exact ⟨b, rfl⟩
  obtain ⟨b, hb⟩ := hflag h.timing enabled
  obtain ⟨b', hb'⟩ := hflag h.timing' enabled'
  unfold time
  rw [hb, hb']
  cases b <;> cases b'
  · exact ⟨.eval hbody, hstack, h⟩
  · exact ⟨.eval hbody, .timer' label hstack, h⟩
  · exact ⟨.eval hbody, .timer label hstack, h⟩
  · exact ⟨.eval hbody, .timer label (.timer' label hstack), h⟩

theorem retunes_invoke (hstack : StackRetunes stack stack') (h : s.Retunes t) (code : Nat)
    (call : Call) : (invoke code call stack s).Retunes (invoke code call stack' t) := by
  have hoverrides : t.overrides = s.overrides := by rw [h.eq]; rfl
  unfold invoke
  rw [hoverrides]
  cases hc : s.code[code]? with
  | none =>
    rw [h.code_eq_none hc]
    exact retunes_refuse hstack h _
  | some c =>
    obtain ⟨c', hc', hretunes⟩ := h.exists_code hc
    rw [hc']
    cases hretunes with
    | body hrun => exact ⟨.eval (hrun call), hstack, h⟩
    | hook id behind =>
      dsimp only
      split
      · exact ⟨.eval (.hook ..), hstack, h⟩
      · exact retunes_refuse hstack h _

theorem retunes_begin (hp : p.Retunes q) (hstack : StackRetunes stack stack') (h : s.Retunes t) :
    (begin p stack s).Retunes (begin q stack' t) := by
  cases hp with
  | done v => exact ⟨.give v, hstack, h⟩
  | fail failure => exact ⟨.raise _, hstack, h⟩
  | perform hc => exact retunes_reply hstack (h.perform hc)
  | bind hfirst hnext => exact ⟨.eval hfirst, .cons (.bind hnext) hstack, h⟩
  | attempt hbody kinds hhandler =>
    exact ⟨.eval hbody, .cons (.attempt kinds hhandler) hstack, h⟩
  | on thread hbody =>
    have hthread : t.thread = s.thread := by rw [h.eq]; rfl
    rw [begin, begin, hthread]
    exact ⟨.eval hbody, .cons (.thread _) hstack, h.thread thread⟩
  | timed label enabled enabled' hbody => exact retunes_time hstack h label enabled enabled' hbody
  | reach target hnext =>
    rw [begin, begin]
    rcases h.locate target with ⟨f, hs, ht⟩ | ⟨place, s', t', hs, ht, hlocated⟩
    · rw [hs, ht]
      exact retunes_refuse hstack h f
    · rw [hs, ht]
      exact ⟨.eval (hnext place), hstack, hlocated⟩
  | view place mode key hbody =>
    rw [begin, begin, openView, openView]
    rcases h.openView place.id mode key with ⟨f, hs, ht⟩ | ⟨o, o', hs, ht, hcontent, hopened⟩
    · rw [hs, ht]
      exact retunes_refuse hstack h f
    · rw [hs, ht]
      dsimp only
      rw [hcontent]
      exact ⟨.eval (hbody _), .cons (.release ..) hstack, hopened⟩
  | get place key hcompute => exact retunes_get hstack h place.id key hcompute
  | peek place key => exact retunes_peek hstack h place.id key
  | copy v => exact retunes_copy hstack h v
  | store hbody hnext =>
    obtain ⟨hnumber, hadded⟩ := h.addCode (.body hbody)
    rw [begin, begin]
    dsimp only
    rw [hnumber]
    exact ⟨.eval (hnext _), hstack, hadded⟩
  | locate source hnext =>
    have hcode : t.codeAt source = s.codeAt source := by
      rw [h.eq]
      cases source <;> rfl
    rw [begin, begin, hcode]
    split
    · exact ⟨.eval (hnext _), hstack, h⟩
    · exact retunes_refuse hstack h _
  | invoke code call => exact retunes_invoke hstack h code call
  | resolve override providers hnext =>
    have hfound :
        t.overrideAndTable override providers = s.overrideAndTable override providers := by
      rw [h.eq]
      rfl
    rw [begin, begin, hfound]
    split
    · exact ⟨.eval (hnext ..), hstack, h⟩
    · exact retunes_refuse hstack h _
  | fetch id table call =>
    have hoverrides : t.overrides = s.overrides := by rw [h.eq]; rfl
    rw [begin, begin, hoverrides]
    split
    · exact ⟨.eval (.fetching ..), hstack, h⟩
    · exact retunes_refuse hstack h _

theorem retunes_finish (hstack : StackRetunes stack stack') (h : s.Retunes t) (id : Nat)
    (key : Spelled) (k : Key) (outcome : Except Fault Value) :
    (finish id key k outcome stack s).Retunes (finish id key k outcome stack' t) := by
  have hresources : t.resources = s.resources := by rw [h.eq]; rfl
  unfold finish
  rw [hresources]
  split
  · rename_i c _
    have hset := (h.setResource id (.stable (c.finish key k outcome).cache)).foldl_report
      (c.finish key k outcome).refusals
    dsimp only
    split
    · exact ⟨.give _, hstack, hset⟩
    · exact ⟨.raise _, hstack, hset⟩
  · exact retunes_refuse hstack h _

theorem retunes_resume {frame frame' : Frame} (hframe : frame.Retunes frame')
    (hstack : StackRetunes stack stack') (h : s.Retunes t) (v : Value) :
    (resume v frame stack s).Retunes (resume v frame' stack' t) := by
  cases hframe with
  | bind hnext => exact ⟨.eval (hnext v), hstack, h⟩
  | attempt kinds hhandler => exact ⟨.give v, hstack, h⟩
  | thread back => exact ⟨.give v, hstack, h.thread back⟩
  | release id mode => exact ⟨.give v, hstack, h.release id mode⟩
  | computing id key k => exact retunes_finish hstack h id key k (.ok v)
  | storing id k =>
    have hresources : t.resources = s.resources := by rw [h.eq]; rfl
    rw [resume, resume, deposit, deposit, hresources]
    split
    · exact ⟨.eval (.copy v), hstack, h.setResource id _⟩
    · exact retunes_refuse hstack h _

theorem retunes_unwind {frame frame' : Frame} (hframe : frame.Retunes frame')
    (hstack : StackRetunes stack stack') (h : s.Retunes t) (f : Fault) :
    (unwind f frame stack s).Retunes (unwind f frame' stack' t) := by
  cases hframe with
  | bind | storing => exact ⟨.raise f, hstack, h⟩
  | attempt kinds hhandler =>
    rw [unwind, unwind]
    split
    · exact ⟨.eval (hhandler f), hstack, h⟩
    · exact ⟨.raise f, hstack, h⟩
  | thread back => exact ⟨.raise f, hstack, h.thread back⟩
  | release id mode => exact ⟨.raise f, hstack, h.release id mode⟩
  | computing id key k => exact retunes_finish hstack h id key k (.error f)

namespace Retunes

/-- Where programs are evaluated, both machines take a step. -/
theorem step_eval (h : m.Retunes n) (hc : m.control.isOutcome = false) : m.step.Retunes n.step := by
  obtain ⟨control, stack, s⟩ := m
  obtain ⟨control', stack', t⟩ := n
  obtain ⟨hcontrol, hstack, hsession⟩ := h
  cases hcontrol with
  | eval hp => exact retunes_begin hp hstack hsession
  | give | raise => cases hc

/-- Where an outcome is taken to frames that match, both machines take a step. -/
theorem step_frames (h : m.Retunes n) (hc : m.control.isOutcome = true) {frame frame' : Frame}
    {rest rest' : List Frame} (hs : m.stack = frame :: rest) (hs' : n.stack = frame' :: rest')
    (hframe : frame.Retunes frame') (hrest : StackRetunes rest rest') : m.step.Retunes n.step := by
  obtain ⟨control, stack, s⟩ := m
  obtain ⟨control', stack', t⟩ := n
  obtain ⟨hcontrol, -, hsession⟩ := h
  cases hs
  cases hs'
  cases hcontrol with
  | eval => cases hc
  | give v => exact retunes_resume hframe hrest hsession v
  | raise f => exact retunes_unwind hframe hrest hsession f

/-- A machine that passes a timer stays at the same point. -/
theorem step_timer (h : m.Retunes n) (hc : m.control.isOutcome = true) {label : String}
    {rest : List Frame} (hs : m.stack = .timer label :: rest) : m.step.Retunes n := by
  obtain ⟨control, stack, s⟩ := m
  obtain ⟨hcontrol, hstack, hsession⟩ := h
  cases hs
  cases control with
  | eval => cases hc
  | give v => exact ⟨hcontrol, hstack.of_timer, hsession.log _⟩
  | raise f => exact ⟨hcontrol, hstack.of_timer, hsession.log _⟩

theorem isOutcome (h : m.Retunes n) (hc : m.control.isOutcome = true) :
    n.control.isOutcome = true := by
  rw [h.control.eq_of_isOutcome hc]
  exact hc

/-- The second machine passes the timers that its stack begins with. -/
theorem catch_up (h : m.Retunes n) (hc : m.control.isOutcome = true) :
    ∃ n₁, m.Retunes n₁ ∧ (∀ label rest, n₁.stack ≠ .timer label :: rest) ∧
      ∀ n', Ends [] n₁ n' → Ends [] n n' := by
  generalize hs : n.stack = stack
  induction stack generalizing n with
  | nil =>
    refine ⟨n, h, fun label rest htimer => ?_, fun _ => id⟩
    cases hs.symm.trans htimer
  | cons frame rest ih =>
    by_cases htimer : ∃ label, frame = .timer label
    · obtain ⟨label, rfl⟩ := htimer
      have hc' := h.isOutcome hc
      have hstep : m.Retunes n.step := (h.symm.step_timer hc' hs).symm
      obtain ⟨n₁, h₁, hnot, hends⟩ := ih hstep (stack_step_of_isOutcome hs hc')
      refine ⟨n₁, h₁, hnot, fun n' hn' => .step ?_ (hends n' hn')⟩
      rw [hs]
      exact fun hend => nomatch hend.1
    · refine ⟨n, h, fun label rest' htop => htimer ⟨label, ?_⟩, fun _ => id⟩
      exact (List.cons.inj (hs.symm.trans htop)).1

/-- **A program that ends in the one session ends alike in the other.** -/
theorem ends (h : m.Retunes n) (hm : Ends [] m m') : ∃ n', Ends [] n n' ∧ m'.Retunes n' := by
  induction hm generalizing n with
  | here hs hc =>
    obtain ⟨n₁, h₁, hnot, hends⟩ := h.catch_up hc
    have hstack := h₁.stack
    rw [hs] at hstack
    -- all that can be left on the second stack are timers, and there are none
    cases hn : n₁.stack with
    | nil => exact ⟨n₁, hends n₁ (.here hn (h₁.isOutcome hc)), h₁⟩
    | cons frame rest =>
      rw [hn] at hstack
      cases hstack with
      | timer' label => exact absurd hn (hnot label rest)
  | @step m m' hne _ ih =>
    by_cases hc : m.control.isOutcome = true
    · obtain ⟨n₁, h₁, hnot, hends⟩ := h.catch_up hc
      have hstack := h₁.stack
      generalize hs : m.stack = stack at hstack
      generalize hs' : n₁.stack = stack' at hstack
      cases hstack with
      | nil => exact absurd ⟨hs, hc⟩ hne
      | cons head tail =>
        obtain ⟨n', hn', hretunes⟩ := ih (h₁.step_frames hc hs hs' head tail)
        refine ⟨n', hends n' (.step ?_ hn'), hretunes⟩
        rw [hs']
        exact fun hend => nomatch hend.1
      | timer label tail =>
        obtain ⟨n', hn', hretunes⟩ := ih (h₁.step_timer hc hs)
        exact ⟨n', hends n' hn', hretunes⟩
      | timer' label tail => exact absurd hs' (hnot label _)
    · have hc' : m.control.isOutcome = false := Bool.not_eq_true _ ▸ hc
      obtain ⟨n', hn', hretunes⟩ := ih (h.step_eval hc')
      refine ⟨n', .step (fun hend => ?_) hn', hretunes⟩
      exact hc (h.symm.isOutcome hend.2)

end Retunes

end Machine

/-! ### Sessions -/

/-- Whether a command configures logging or logs an event. -/
def SettingsCommand.isLogging : SettingsCommand → Bool
  | .configure .. | .configureFromEnvironment | .log _ => true
  | _ => false

/-- Whether a program does nothing but configure logging or log an event. -/
def Program.isLogging : Program → Bool
  | .perform (.settings c) => c.isLogging
  | _ => false

namespace Machine

variable {m m' n : Machine} {s s' t : Session} {p q : Program} {programs programs' : List Program}
  {ends : List Machine}

/-- The session `s` runs programs one after the other, each to its end, and is `t` then.  Those that
do more than configure logging or log an event end at `ends`. -/
inductive Plays : Session → List Program → List Machine → Session → Prop where
  | nil (s : Session) : Plays s [] [] s
  | logging {s t : Session} {p : Program} {programs : List Program} {n : Machine}
    {ends : List Machine} (hp : p.isLogging = true) (h : Ends [] (load p s) n)
    (rest : Plays n.session programs ends t) : Plays s (p :: programs) ends t
  | program {s t : Session} {p : Program} {programs : List Program} {n : Machine}
    {ends : List Machine} (hp : p.isLogging = false) (h : Ends [] (load p s) n)
    (rest : Plays n.session programs ends t) : Plays s (p :: programs) (n :: ends) t

/-- Whether two programs have ended alike: with the same value or the same fault, which are seen
the same, in sessions that are the same but for tuning. -/
structure EndAlike (m n : Machine) : Prop where
  outcome : n.outcome? = m.outcome?
  ending : n.session.ending n.outcome? = m.session.ending m.outcome?
  session : m.session.Retunes n.session

theorem EndAlike.symm (h : EndAlike m n) : EndAlike n m :=
  ⟨h.outcome.symm, h.ending.symm, h.session.symm⟩

theorem Retunes.endAlike (h : m.Retunes n) (hm : m.stack = []) (hn : n.stack = [])
    (hc : m.control.isOutcome = true) : EndAlike m n := by
  have houtcome : n.outcome? = m.outcome? := by
    rw [outcome?, outcome?, hm, hn, h.control.eq_of_isOutcome hc]
  have hmemory : n.session.memory = m.session.memory := by rw [h.session.eq]; rfl
  refine ⟨houtcome, ?_, h.session⟩
  unfold Session.ending
  rw [houtcome, hmemory]

theorem retunes_load (h : s.Retunes t) (hp : p.Retunes q) : (load p s).Retunes (load q t) :=
  ⟨.eval hp, .nil, h⟩

theorem retunes_of_isLogging (h : s.Retunes t) {c : SettingsCommand} (hc : c.isLogging = true) :
    (s.settings c).2.Retunes t := by
  have hconfigured (r : Except Fault Logging) : (s.configured r).2.Retunes t := by
    cases r with
    | error f => exact h
    | ok l => exact h.relog _ rfl
  cases c with
  | configure level json =>
    rw [show s.settings (.configure level json) = _ from s.configure_eq_configured ..]
    exact hconfigured _
  | configureFromEnvironment =>
    rw [show s.settings .configureFromEnvironment = _ from
      Session.perform_of_requested (s := s) (c := .settings .configureFromEnvironment) rfl]
    exact hconfigured _
  | log e =>
    unfold Session.settings Session.logChecked
    dsimp only
    split
    · exact h.log e
    · exact h
  | setEnvironment | readSettings | readLevel | readTiming | showSettings => cases hc

/-- A program that configures logging or logs an event ends, and leaves the session the same but for
tuning. -/
theorem exists_ends_of_isLogging (h : s.Retunes t) (hp : p.isLogging = true) :
    ∃ n, Ends [] (load p s) n ∧ n.session.Retunes t := by
  obtain ⟨c, rfl, hc⟩ : ∃ c, p = .perform (.settings c) ∧ c.isLogging = true := by
    unfold Program.isLogging at hp
    split at hp
    · exact ⟨_, rfl, hp⟩
    · cases hp
  have hsession := retunes_of_isLogging h hc
  have hstep : (load (.perform (.settings c)) s).step = reply [] (s.settings c) := rfl
  generalize s.settings c = r at hstep hsession
  refine ⟨_, .step (fun hend => nomatch hend.2) (.here ?_ ?_), ?_⟩
  · rw [hstep, stack_reply]
  · rw [hstep]
    obtain ⟨_ | _, s'⟩ := r <;> rfl
  · rw [hstep]
    obtain ⟨f | v, s'⟩ := r
    · show (s'.report f).Retunes t
      unfold Session.report
      split
      · exact hsession.log _
      · exact hsession
    · exact hsession

theorem ends_run (fuel : Nat) (h : (m.run fuel).outcome?.isSome = true) :
    Ends [] m (m.run fuel) := by
  have here {m : Machine} (hm : m.outcome?.isSome = true) : Ends [] m m :=
    .here ((outcome?_isSome_iff m).mp hm).1 ((outcome?_isSome_iff m).mp hm).2
  induction fuel generalizing m with
  | zero => exact here h
  | succ fuel ih =>
    by_cases hm : m.outcome?.isSome = true
    · rw [run, if_pos hm]
      exact here hm
    · rw [run, if_neg hm] at h ⊢
      exact .step (mt (outcome?_isSome_iff m).mpr hm) (ih h)

/-- The programs of a session that do more than configure logging or log an event. -/
def compared (programs : List Program) : List Program := programs.filter (!·.isLogging)

theorem compared_cons_of_isLogging (hp : p.isLogging = true) :
    compared (p :: programs) = compared programs := by
  rw [compared, List.filter_cons, hp]
  rfl

theorem compared_cons (hp : p.isLogging = false) :
    compared (p :: programs) = p :: compared programs := by
  rw [compared, List.filter_cons, hp]
  rfl

/-- The programs that configure logging or log events are run until another one is next. -/
theorem exists_next (h : s.Retunes t) (hsame : List.Forall₂ Program.Retunes (p :: programs)
    (compared programs')) :
    ∃ q rest t₁, p.Retunes q ∧ q.isLogging = false ∧
      List.Forall₂ Program.Retunes programs (compared rest) ∧ s.Retunes t₁ ∧
      ∀ ends t', Plays t₁ (q :: rest) ends t' → Plays t programs' ends t' := by
  induction programs' generalizing t with
  | nil => cases hsame
  | cons q rest ih =>
    cases hq : q.isLogging with
    | true =>
      obtain ⟨n, hends, hn⟩ := exists_ends_of_isLogging h.symm hq
      rw [compared_cons_of_isLogging hq] at hsame
      obtain ⟨q', rest', t₁, hq', hnot, hrest, ht₁, hplays⟩ := ih hn.symm hsame
      exact ⟨q', rest', t₁, hq', hnot, hrest, ht₁, fun ends t' hplay =>
        .logging hq hends (hplays ends t' hplay)⟩
    | false =>
      rw [compared_cons hq] at hsame
      cases hsame with
      | cons hpq hrest => exact ⟨q, rest, t, hpq, hq, hrest, h, fun _ _ => id⟩

theorem exists_plays_nil (h : s.Retunes t)
    (hsame : List.Forall₂ Program.Retunes [] (compared programs')) :
    ∃ t', Plays t programs' [] t' ∧ s.Retunes t' := by
  induction programs' generalizing t with
  | nil => exact ⟨t, .nil t, h⟩
  | cons q rest ih =>
    cases hq : q.isLogging with
    | true =>
      obtain ⟨n, hends, hn⟩ := exists_ends_of_isLogging h.symm hq
      rw [compared_cons_of_isLogging hq] at hsame
      obtain ⟨t', hplays, ht'⟩ := ih hn.symm hsame
      exact ⟨t', .logging hq hends hplays, ht'⟩
    | false =>
      rw [compared_cons hq] at hsame
      cases hsame

/-- What one session runs through, the other one does too, the same but for tuning. -/
theorem Plays.exists_plays (hplays : Plays s programs ends s') (h : s.Retunes t)
    (hsame : List.Forall₂ Program.Retunes (compared programs) (compared programs')) :
    ∃ ends' t', Plays t programs' ends' t' ∧ List.Forall₂ EndAlike ends ends' ∧ s'.Retunes t' := by
  induction hplays generalizing t programs' with
  | nil s =>
    obtain ⟨t', hplays, ht'⟩ := exists_plays_nil h hsame
    exact ⟨[], t', hplays, .nil, ht'⟩
  | logging hp hends _ ih =>
    obtain ⟨n, hn, hretunes⟩ := exists_ends_of_isLogging h hp
    obtain rfl := hends.unique hn
    rw [compared_cons_of_isLogging hp] at hsame
    exact ih hretunes hsame
  | program hp hends _ ih =>
    rw [compared_cons hp] at hsame
    obtain ⟨q, rest, t₁, hpq, hq, hrest, ht₁, hplays'⟩ := exists_next h hsame
    obtain ⟨n', hends', hretunes⟩ := (retunes_load ht₁ hpq).ends hends
    obtain ⟨ends', t', hrest', halike, ht'⟩ := ih hretunes.session hrest
    exact ⟨n' :: ends', t', hplays' _ _ (.program hq hends' hrest'),
      .cons (hretunes.endAlike hends.stack_eq hends'.stack_eq hends.isOutcome) halike, ht'⟩

theorem retunes_start (audience audience' : Audience)
    {environment environment' : List (String × Option String)}
    (others : otherChanges environment' = otherChanges environment) (flags : SetsFlags environment)
    (flags' : SetsFlags environment') :
    (Session.start audience environment).Retunes (.start audience' environment') := by
  have hempty : ∃ b, Environment.timing ∅ = .ok b :=
    Environment.exists_timing_iff.mpr fun text h => nomatch h
  refine ⟨rfl, rfl, fun n c c' hc => ?_, fun name hname => ?_, ?_, ?_, rfl⟩
  · cases hc
  · exact Environment.get?_change_eq others rfl hname
  · exact Environment.exists_timing_change hempty flags
  · exact Environment.exists_timing_change hempty flags'

/-- **Timing and logging change nothing.**  Take two sessions with the same programs, except that
the flags for block timers, in the environment and at timed blocks, may be other ones, as long as
they are flags; that programs which do nothing but configure logging or log an event may stand
anywhere in either session; and that the audiences may differ.  No program reads the settings of the
environment, and an event that is logged inside of a program can be rendered.  Then each program
that the one session brings to an end the other one does too, and they end alike: with the same
value or the same fault, as it is seen, and in the same state with the same values noted, but for
the events in the journal, the configuration of logging and the flag for block timers. -/
theorem tuning_changes_nothing {audience audience' : Audience}
    {environment environment' : List (String × Option String)}
    (others : otherChanges environment' = otherChanges environment) (flags : SetsFlags environment)
    (flags' : SetsFlags environment')
    (same : List.Forall₂ Program.Retunes (compared programs) (compared programs')) :
    (∀ ends s, Plays (.start audience environment) programs ends s →
      ∃ ends' t, Plays (.start audience' environment') programs' ends' t ∧
        List.Forall₂ EndAlike ends ends' ∧ s.Retunes t) ∧
    ∀ ends' t, Plays (.start audience' environment') programs' ends' t →
      ∃ ends s, Plays (.start audience environment) programs ends s ∧
        List.Forall₂ EndAlike ends ends' ∧ s.Retunes t := by
  have hstart := retunes_start audience audience' others flags flags'
  refine ⟨fun ends s hplays => hplays.exists_plays hstart same, fun ends' t hplays => ?_⟩
  have same' : List.Forall₂ Program.Retunes (compared programs') (compared programs) :=
    same.flip.imp fun _ _ h => h.symm
  obtain ⟨ends, s, hplays', halike, hs⟩ := hplays.exists_plays hstart.symm same'
  exact ⟨ends, s, hplays', halike.flip.imp fun _ _ h => h.symm, hs.symm⟩

/-- Asks the cache `c` for a key.  The computation is timed as `enabled` says, and notes a value. -/
def asksTimed (enabled : Option Bool) : Program :=
  .reach (.named "c") fun place => .get place (.text "k") fun _ =>
    .timed "t" enabled (.andThen (.perform (.mark (.int 1))) (.done (.int 7)))

/-- Configures logging, makes a cache and asks it. -/
def loudPrograms : List Program :=
  [.perform (.settings (.configure "DEBUG" false)), .perform (.create (.stable "c" none)),
    asksTimed (some true)]

/-- Makes a cache, logs an event and asks the cache. -/
def quietPrograms : List Program :=
  [.perform (.create (.stable "c" none)),
    .perform (.settings (.log { logger := "l", level := .info, name := "e" })), asksTimed none]

theorem tuning_changes_nothing_asksTimed :
    ∃ ends s, Plays (.start .lines [(timingVariable, some "1")]) loudPrograms ends s ∧
      ends.map outcome? = [some (.ok .null), some (.ok (.int 7))] ∧
      ∃ ends' t, Plays (.start .events [(timingVariable, some "0")]) quietPrograms ends' t ∧
        List.Forall₂ EndAlike ends ends' ∧ s.Retunes t := by
  have hplays : Plays (.start .lines [(timingVariable, some "1")]) loudPrograms _ _ :=
    .logging rfl (ends_run 3 rfl) (.program rfl (ends_run 3 rfl)
      (.program rfl (ends_run 12 rfl) (.nil _)))
  have others : otherChanges [(timingVariable, some "0")] =
      otherChanges [(timingVariable, some "1")] := by
    decide
  have flags (text : String) (h : (readFlag? (Text.strip text)).isSome = true) :
      SetsFlags [(timingVariable, some text)] := by
    intro text' hmem
    cases List.mem_singleton.mp hmem
    exact h
  have same : List.Forall₂ Program.Retunes (compared loudPrograms) (compared quietPrograms) :=
    .cons (.perform (.create _)) (.cons (.reach _ fun _ => .get _ _ fun _ =>
      .timed _ _ _ (.andThen (.perform (.mark _)) (.done _))) .nil)
  obtain ⟨ends', t, hplays', halike, ht⟩ :=
    (tuning_changes_nothing others (flags "1" (by decide)) (flags "0" (by decide)) same).1
      _ _ hplays
  exact ⟨_, _, hplays, rfl, ends', t, hplays', halike, ht⟩

/-- Logs an event whose stack is no text, and gives another value if that fails. -/
def logsNumberAsStack : Program :=
  .attempt (.perform (.settings (.log
    { logger := "h", level := .error, name := "ev", fields := [("stack", .int 5)] })))
    [.badType] fun _ => .done (.text "failed")

/-- Whether an event that cannot be rendered is noticed depends on the level of logging. -/
theorem unrenderable_event_noticed :
    ∃ ends s ends' t,
      Plays (.start .lines []) [.perform (.settings (.configure "CRITICAL" false)),
        logsNumberAsStack] ends s ∧
      Plays (.start .lines []) [.perform (.settings (.configure "DEBUG" false)),
        logsNumberAsStack] ends' t ∧
      ends.map outcome? = [some (.ok .null)] ∧
      ends'.map outcome? = [some (.ok (.text "failed"))] :=
  ⟨_, _, _, _, .logging rfl (ends_run 3 rfl) (.program rfl (ends_run 5 rfl) (.nil _)),
    .logging rfl (ends_run 3 rfl) (.program rfl (ends_run 5 rfl) (.nil _)), rfl, rfl⟩

end Machine

end CheckedMemo
