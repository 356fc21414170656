import CheckedMemo.Proofs.Change

/-!
# Sessions that differ in one resource

Two sessions may be the same but for one cell or cache (`Session.Beside`).  A command, or one layer
of a program, that is not about this resource does the same in both, and leaves them the same but
for it (`Session.Beside.perform`, `parallel_begin`); so does an outcome that is taken to a frame
which is not about it (`parallel_resume`, `parallel_unwind`).  What a program does is thus told
apart only where it asks the resource itself.
-/

namespace CheckedMemo

/-! ### What a program is about -/

/-- The place that an inspection looks at. -/
def Inspection.place : Inspection → Place
  | .contains p _ | .size p | .stats p | .label p | .readers p | .isBorrowed p | .retrieve p _ => p

/-- The number of the cell or cache that a command is about, if it was given one. -/
def Command.resource? : Command → Option Nat
  | .inspect i => some i.place.id
  | .view (.openAs _ place _ _) => some place.id
  | _ => none

/-- The number of the cell or cache that the first layer of a program is about. -/
def Program.resource? : Program → Option Nat
  | .perform c => c.resource?
  | .view place .. | .get place .. | .peek place .. => some place.id
  | _ => none

/-- The number of the cell or cache that a frame is about. -/
def Frame.resource? : Frame → Option Nat
  | .release id _ | .computing id _ _ | .storing id _ => some id
  | _ => none

/-! ### Sessions -/

namespace Session

variable {s t : Session} {id i : Nat} {r r' : Resource}

/-- The sessions are the same but for one resource, which is `r` in the first and `r'` in the
second, and no view of it is open under a name. -/
structure Beside (id : Nat) (r r' : Resource) (s t : Session) : Prop where
  found : s.resources[id]? = some r
  eq : t = s.setResource id r'
  views : ∀ name v, s.views.get? name = some v → v.resource ≠ id

theorem setResource_comm (s : Session) (hi : i ≠ id) (r r' : Resource) :
    (s.setResource id r).setResource i r' = (s.setResource i r').setResource id r :=
  congrArg (fun resources => { s with resources }) (Array.setIfInBounds_comm _ _ hi.symm)

theorem setResource_setResource (s : Session) (id : Nat) (r r' : Resource) :
    (s.setResource id r).setResource id r' = s.setResource id r' :=
  congrArg (fun resources => { s with resources }) (Array.setIfInBounds_setIfInBounds ..)

theorem push_setIfInBounds {resources : Array Resource} (h : id < resources.size)
    (r r' : Resource) :
    (resources.setIfInBounds id r).push r' = (resources.push r').setIfInBounds id r := by
  apply Array.ext_getElem?
  intro j
  rw [Array.getElem?_push, Array.size_setIfInBounds, Array.getElem?_setIfInBounds,
    Array.getElem?_setIfInBounds, Array.getElem?_push, Array.size_push]
  by_cases hj : id = j
  · subst hj
    rw [if_neg (Nat.ne_of_lt h), if_pos rfl, if_pos rfl, if_pos h,
      if_pos (Nat.lt_succ_of_lt h)]
  · rw [if_neg hj, if_neg hj]

theorem resources_setResource_of_ne (s : Session) (hi : i ≠ id) (r : Resource) :
    (s.setResource id r).resources[i]? = s.resources[i]? :=
  Array.getElem?_setIfInBounds_ne hi.symm

namespace Beside

theorem lt (h : Beside id r r' s t) : id < s.resources.size :=
  (Array.getElem?_eq_some_iff.mp h.found).1

theorem resources_of_ne (h : Beside id r r' s t) (hi : i ≠ id) :
    t.resources[i]? = s.resources[i]? := by
  rw [h.eq]
  exact s.resources_setResource_of_ne hi r'

/-- Whatever leaves the shared part of the sessions alone leaves them the same but for the
resource. -/
theorem of_shared {s' t' : Session} (h : Beside id r r' s t) (hs : s'.shared = s.shared)
    (ht : t' = s'.setResource id r') : Beside id r r' s' t' := by
  have hresources : s'.resources = s.resources := congrArg Shared.resources hs
  have hviews : s'.views = s.views := congrArg Shared.views hs
  exact ⟨hresources ▸ h.found, ht, hviews ▸ h.views⟩

theorem log (h : Beside id r r' s t) (e : Event) : Beside id r r' (s.log e) (t.log e) := by
  obtain ⟨found, rfl, views⟩ := h
  exact ⟨found, rfl, views⟩

theorem report (h : Beside id r r' s t) (f : Fault) :
    Beside id r r' (s.report f) (t.report f) := by
  unfold Session.report
  split
  · exact h.log _
  · exact h

theorem foldl_report (h : Beside id r r' s t) (fs : List Fault) :
    Beside id r r' (fs.foldl Session.report s) (fs.foldl Session.report t) := by
  induction fs generalizing s t with
  | nil => exact h
  | cons f fs ih => exact ih (h.report f)

theorem thread (h : Beside id r r' s t) (thread : Thread) :
    Beside id r r' { s with thread } { t with thread } := by
  obtain ⟨found, rfl, views⟩ := h
  exact ⟨found, rfl, views⟩

theorem memory (h : Beside id r r' s t) (memory : Memory) :
    Beside id r r' { s with memory } { t with memory } := by
  obtain ⟨found, rfl, views⟩ := h
  exact ⟨found, rfl, views⟩

theorem addCode (h : Beside id r r' s t) (c : Code) :
    Beside id r r' (s.addCode c).2 (t.addCode c).2 := by
  obtain ⟨found, rfl, views⟩ := h
  exact ⟨found, rfl, views⟩

/-! ### Other resources -/

theorem setResource (h : Beside id r r' s t) (hi : i ≠ id) (r₁ : Resource) :
    Beside id r r' (s.setResource i r₁) (t.setResource i r₁) := by
  refine ⟨?_, ?_, h.views⟩
  · exact (s.resources_setResource_of_ne hi.symm r₁).trans h.found
  · rw [h.eq]
    exact s.setResource_comm hi r' r₁

theorem addResource (h : Beside id r r' s t) (r₁ : Resource) :
    (t.addResource r₁).1 = (s.addResource r₁).1 ∧
      Beside id r r' (s.addResource r₁).2 (t.addResource r₁).2 := by
  have hid := h.lt
  obtain ⟨found, rfl, views⟩ := h
  refine ⟨Array.size_setIfInBounds .., ?_, ?_, views⟩
  · refine Array.getElem?_push.trans ?_
    rw [if_neg (Nat.ne_of_lt hid), found]
  · exact congrArg (fun resources => { s with resources }) (push_setIfInBounds hid r' r₁)

theorem release (h : Beside id r r' s t) (hi : i ≠ id) (mode : Mode) :
    Beside id r r' (s.release i mode) (t.release i mode) := by
  unfold Session.release
  rw [h.resources_of_ne hi]
  split
  · exact h.setResource hi _
  · exact h

theorem views_eq (h : Beside id r r' s t) : t.views = s.views := by
  rw [h.eq]
  rfl

theorem dropNamed (h : Beside id r r' s t) (name : String) :
    Beside id r r' (s.dropNamed name) (t.dropNamed name) := by
  unfold Session.dropNamed
  rw [h.views_eq]
  split
  · exact h
  · rename_i v hv
    obtain ⟨found, ht, views⟩ := h.release (h.views name v hv) v.mode
    refine ⟨found, by rw [ht]; rfl, fun name' v' hv' => ?_⟩
    rw [Table.get?_erase] at hv'
    split at hv'
    · cases hv'
    · exact h.views name' v' hv'

theorem openView (h : Beside id r r' s t) (hi : i ≠ id) (mode : Mode) (key : Value) :
    (∃ f, s.openView i mode key = .error f ∧ t.openView i mode key = .error f) ∨
      ∃ o o', s.openView i mode key = .ok o ∧ t.openView i mode key = .ok o' ∧
        o'.content = o.content ∧ Beside id r r' o.session o'.session := by
  have hrequest : t.request key = s.request key := by rw [h.eq]; rfl
  unfold Session.openView
  rw [h.resources_of_ne hi, hrequest]
  cases s.resources[i]? with
  | none => exact .inl ⟨_, rfl, rfl⟩
  | some r₁ =>
    dsimp only
    cases r₁.guard.allow mode (s.request key) with
    | error f => exact .inl ⟨f, rfl, rfl⟩
    | ok => exact .inr ⟨_, _, rfl, rfl, rfl, h.setResource hi _⟩

theorem locateConfined (h : Beside id r r' s t) (cid : Nat) :
    (∃ f, s.locateConfined cid = .error f ∧ t.locateConfined cid = .error f) ∨
      ∃ place s' t', s.locateConfined cid = .ok (place, s') ∧
        t.locateConfined cid = .ok (place, t') ∧ Beside id r r' s' t' := by
  have hconfined : t.confined = s.confined := by rw [h.eq]; rfl
  have hthread : t.thread = s.thread := by rw [h.eq]; rfl
  unfold Session.locateConfined
  rw [hconfined, hthread]
  cases s.confined[cid]? with
  | none => exact .inl ⟨_, rfl, rfl⟩
  | some c =>
    dsimp only
    cases c.caches.get? s.thread with
    | some part => exact .inr ⟨_, s, t, rfl, rfl, h⟩
    | none =>
      obtain ⟨hnumber, hadded⟩ :=
        h.addResource (.stable { guard := { label := c.labelOn s.thread } })
      dsimp only
      rw [hnumber]
      obtain ⟨found, ht, views⟩ := hadded
      exact .inr ⟨_, _, _, rfl, rfl, found, by rw [ht]; rfl, views⟩

theorem locateArtifacts (h : Beside id r r' s t) (override : Nat) :
    (∃ f, s.locateArtifacts override = .error f ∧ t.locateArtifacts override = .error f) ∨
      ∃ place s' t', s.locateArtifacts override = .ok (place, s') ∧
        t.locateArtifacts override = .ok (place, t') ∧ Beside id r r' s' t' := by
  have hoverrides : t.overrides = s.overrides := by rw [h.eq]; rfl
  unfold Session.locateArtifacts
  rw [hoverrides]
  cases s.overrides[override]? with
  | none => exact .inl ⟨_, rfl, rfl⟩
  | some o => exact h.locateConfined o.artifacts

theorem locate (h : Beside id r r' s t) (target : Target) :
    (∃ f, s.locate target = .error f ∧ t.locate target = .error f) ∨
      ∃ place s' t', s.locate target = .ok (place, s') ∧ t.locate target = .ok (place, t') ∧
        Beside id r r' s' t' := by
  cases target with
  | artifacts override => exact h.locateArtifacts override
  | common => exact h.locateConfined 0
  | named name =>
    have hnames : t.names = s.names := by rw [h.eq]; rfl
    unfold Session.locate
    dsimp only
    rw [hnames]
    cases s.names.get? name with
    | none => exact .inl ⟨_, rfl, rfl⟩
    | some handle =>
      cases handle with
      | resource | «scoped» => exact .inr ⟨_, s, t, rfl, rfl, h⟩
      | confined cid => exact h.locateConfined cid
      | override oid => exact h.locateArtifacts oid
      | providers => exact .inl ⟨_, rfl, rfl⟩

/-! ### Commands -/

/-- The replies are the same, and the sessions are the same but for the resource. -/
structure Replies (id : Nat) (r r' : Resource) (x y : Except Fault Value × Session) : Prop where
  reply : y.1 = x.1
  beside : Beside id r r' x.2 y.2

theorem view (h : Beside id r r' s t) {c : ViewCommand}
    (hc : (Command.view c).resource? ≠ some id) : Replies id r r' (s.view c) (t.view c) := by
  cases c with
  | isOpen name =>
    refine ⟨?_, h⟩
    show Except.ok (Value.bool (t.views.contains name)) = _
    rw [h.views_eq]
    rfl
  | openAs name place mode key =>
    have hi : place.id ≠ id := fun heq => hc (congrArg some heq)
    rw [Session.view, Session.view, openNamed, openNamed]
    rcases h.openView hi mode key with ⟨f, hs, ht⟩ | ⟨o, o', hs, ht, hcontent, hopened⟩
    · rw [hs, ht]
      exact ⟨rfl, h⟩
    · rw [hs, ht]
      obtain ⟨found, hsession, views⟩ := hopened.dropNamed name
      refine ⟨congrArg Except.ok hcontent, found, ?_, fun name' v hv => ?_⟩
      · dsimp only
        rw [hsession]
        rfl
      · rw [Table.get?_insert] at hv
        split at hv
        · cases hv
          exact hi
        · exact views name' v hv
  | close name failure =>
    simp only [Session.view, closeNamed, h.views_eq]
    split
    · cases failure <;> exact ⟨rfl, h.dropNamed name⟩
    · exact ⟨rfl, h⟩

theorem inspect (h : Beside id r r' s t) {i : Inspection} (hi : i.place.id ≠ id) :
    Replies id r r' (s.inspect i) (t.inspect i) := by
  have hresource (p : Place) (hp : p.id ≠ id) : t.resource p.id = s.resource p.id := by
    unfold resource
    rw [h.resources_of_ne hp]
  have hrequest (key : Value) : t.request key = s.request key := by rw [h.eq]; rfl
  cases i with
  | stats p =>
    have hmemory : t.memory = s.memory := by rw [h.eq]; rfl
    rw [Session.inspect, Session.inspect, stats, stats, hresource p hi, hmemory]
    cases s.resource p.id >>= Resource.stats with
    | error f => exact ⟨rfl, h⟩
    | ok counts => exact ⟨rfl, h.memory _⟩
  | contains p key | retrieve p key =>
    refine ⟨?_, h⟩
    simp only [Session.inspect, hrequest]
    rw [hresource p hi]
  | size p =>
    refine ⟨?_, h⟩
    simp only [Session.inspect, hrequest]
    rw [hresource p hi]
  | label p | readers p | isBorrowed p =>
    refine ⟨?_, h⟩
    simp only [Session.inspect]
    rw [hresource p hi]

theorem create (h : Beside id r r' s t) (c : Creation) :
    Beside id r r' (s.create c) (t.create c) := by
  -- a new cell or cache is added behind the others and bound to a name
  have hcreate (name : String) (r₁ : Resource) (handle : Nat → Handle) :
      Beside id r r' ((s.addResource r₁).2.bindName name (handle (s.addResource r₁).1))
        ((t.addResource r₁).2.bindName name (handle (t.addResource r₁).1)) := by
    obtain ⟨hnumber, found, ht, views⟩ := h.addResource r₁
    rw [hnumber, ht]
    exact ⟨found, rfl, views⟩
  cases c with
  | cell name | stable name | value name => exact hcreate name _ .resource
  | «scoped» name label hint => exact hcreate name _ (.scoped · (shownHint hint))
  | confined | override | providers =>
    obtain ⟨found, rfl, views⟩ := h
    exact ⟨found, rfl, views⟩

/-- A reply that is the same but for the session, in which the resource is replaced, leaves the
sessions the same but for it if it leaves the shared part of the session alone. -/
theorem replies_of_shared (h : Beside id r r' s t) {x y : Except Fault Value × Session}
    (hx : x.2.shared = s.shared) (hy : y = (x.1, x.2.setResource id r')) :
    Replies id r r' x y := by
  subst hy
  exact ⟨rfl, h.of_shared hx rfl⟩

theorem table (h : Beside id r r' s t) (c : TableCommand) :
    Replies id r r' (s.table c) (t.table c) := by
  refine h.replies_of_shared (s.shared_table c) ?_
  obtain ⟨-, rfl, -⟩ := h
  have hnamed (name : String) : (s.setResource id r').tableNamed name = s.tableNamed name := rfl
  cases c with
  | define => rfl
  | provide providers query code =>
    rw [Session.table, Session.table, hnamed]
    cases s.tableNamed providers <;> rfl
  | «alias» providers query otherProviders otherQuery =>
    rw [Session.table, Session.table, aliasEntry, aliasEntry, hnamed,
      show (s.setResource id r').codeAt (.provider providers query) =
        s.codeAt (.provider providers query) from rfl]
    cases s.codeAt (.provider providers query) with
    | error f => rfl
    | ok code => cases s.tableNamed otherProviders <;> rfl
  | withdraw providers query =>
    rw [Session.table, Session.table, withdraw, withdraw, hnamed]
    cases s.tableNamed providers with
    | error f => rfl
    | ok p =>
      rw [ok_bind, ok_bind]
      dsimp only
      split <;> rfl
  | queries providers =>
    rw [Session.table, Session.table, queries, queries, hnamed]
    cases s.tableNamed providers <;> rfl
  | install override providers =>
    rw [Session.table, Session.table, install, install, hnamed,
      show (s.setResource id r').overrideNamed override = s.overrideNamed override from rfl]
    cases s.overrideNamed override with
    | error f => rfl
    | ok o =>
      obtain ⟨oid, o⟩ := o
      cases s.tableNamed providers with
      | error f => rfl
      | ok p =>
        obtain ⟨pid, providers⟩ := p
        simp only [ok_bind, hooked]
        cases providers.get? o.query with
        | none => rfl
        | some current =>
          dsimp only
          rw [show (s.setResource id r').isHookOf oid current = s.isHookOf oid current from rfl]
          split <;> rfl

theorem settingsValue_setResource (s : Session) (u : Settings) :
    (s.setResource id r').settingsValue u =
      ((s.settingsValue u).1, (s.settingsValue u).2.setResource id r') := by
  unfold settingsValue
  rw [show (s.setResource id r').memory = s.memory from rfl]
  generalize s.memory.run _ = x
  rfl

theorem settings (h : Beside id r r' s t) (c : SettingsCommand) :
    Replies id r r' (s.settings c) (t.settings c) := by
  refine h.replies_of_shared (s.shared_settings c) ?_
  obtain ⟨-, rfl, -⟩ := h
  have henvironment : (s.setResource id r').environment = s.environment := rfl
  cases c with
  | setEnvironment => rfl
  | readLevel | readTiming =>
    unfold Session.settings
    dsimp only
    rw [henvironment]
  | showSettings u => exact settingsValue_setResource s u
  | readSettings =>
    unfold Session.settings
    dsimp only
    rw [henvironment]
    cases s.environment.settings with
    | error f => rfl
    | ok u => exact settingsValue_setResource s u
  | configure level json =>
    unfold Session.settings configure
    dsimp only
    cases Logging.ofText level json <;> rfl
  | configureFromEnvironment =>
    unfold Session.settings
    dsimp only
    rw [henvironment]
    cases s.environment.settings with
    | error f => rfl
    | ok u =>
      dsimp only
      rw [configure, configure]
      cases Logging.ofText u.level u.json <;> rfl
  | log e =>
    unfold Session.settings logChecked
    dsimp only
    rw [show (s.setResource id r').sink = s.sink from rfl]
    cases e.lines s.sink <;> rfl

/-- A command that is not about the resource. -/
theorem perform (h : Beside id r r' s t) {c : Command} (hc : c.resource? ≠ some id) :
    Replies id r r' (s.perform c) (t.perform c) := by
  cases c with
  | memory c =>
    refine h.replies_of_shared (s.shared_onMemory _) ?_
    rw [h.eq]
    rfl
  | inspect i => exact h.inspect fun heq => hc (congrArg some heq)
  | view c => exact h.view hc
  | create c => exact ⟨rfl, h.create c⟩
  | table c => exact h.table c
  | settings c => exact h.settings c
  | mark v =>
    refine h.replies_of_shared (s.shared_mark v) ?_
    rw [h.eq, Session.perform, Session.perform, mark, mark,
      show (s.setResource id r').memory = s.memory from rfl]
    cases s.memory.written v <;> rfl
  | spell v =>
    refine h.replies_of_shared rfl ?_
    rw [h.eq]
    rfl

end Beside

end Session

/-! ### Machines -/

namespace Machine

open Session (Beside)

variable {id i : Nat} {r r' : Resource} {base base' : List Frame} {s t : Session} {m n : Machine}

/-- What two machines have become that have done the same on top of `base` and `base'`: their
controls are the same, so are the frames that have been put on top, which are not about the
resource, and the sessions are the same but for it. -/
structure Parallel (id : Nat) (r r' : Resource) (base base' : List Frame) (m n : Machine) :
    Prop where
  control : n.control = m.control
  stack : ∃ top : List Frame, m.stack = top ++ base ∧ n.stack = top ++ base' ∧
    ∀ frame ∈ top, frame.resource? ≠ some id
  session : Beside id r r' m.session n.session

namespace Parallel

theorem same (h : Beside id r r' s t) (c : Control) :
    Parallel id r r' base base' ⟨c, base, s⟩ ⟨c, base', t⟩ :=
  ⟨rfl, ⟨[], rfl, rfl, fun _ hf => nomatch hf⟩, h⟩

theorem push (h : Beside id r r' s t) (c : Control) {frame : Frame}
    (hframe : frame.resource? ≠ some id) :
    Parallel id r r' base base' ⟨c, frame :: base, s⟩ ⟨c, frame :: base', t⟩ := by
  refine ⟨rfl, ⟨[frame], rfl, rfl, fun f hf => ?_⟩, h⟩
  rw [List.mem_singleton.mp hf]
  exact hframe

theorem refuse (h : Beside id r r' s t) (f : Fault) :
    Parallel id r r' base base' (refuse f base s) (refuse f base' t) :=
  same (h.report f) (.raise f)

theorem reply {x y : Except Fault Value × Session} (h : Session.Beside.Replies id r r' x y) :
    Parallel id r r' base base' (reply base x) (reply base' y) := by
  obtain ⟨hreply, hbeside⟩ := h
  obtain ⟨x, s⟩ := x
  obtain ⟨y, t⟩ := y
  obtain rfl : y = x := hreply
  cases y with
  | error f => exact refuse hbeside f
  | ok v => exact same hbeside (.give v)

theorem get (h : Beside id r r' s t) (hi : i ≠ id) (key : Value) (compute : Value → Program) :
    Parallel id r r' base base' (Machine.get i key compute base s)
      (Machine.get i key compute base' t) := by
  have hrequest : t.request key = s.request key := by rw [h.eq]; rfl
  have hthread : t.thread = s.thread := by rw [h.eq]; rfl
  have hframe : some i ≠ some id := fun heq => hi (Option.some.inj heq)
  unfold Machine.get
  rw [h.resources_of_ne hi]
  split
  · unfold getStable
    rw [hrequest, hthread]
    split
    · exact refuse h _
    · exact same (h.setResource hi _) _
    · exact push ((h.setResource hi _).log _) _ hframe
  · unfold getValue
    rw [hrequest]
    split
    · exact refuse h _
    · exact push (h.setResource hi _) _ hframe
    · refine ⟨rfl, ⟨[_, _], rfl, rfl, fun f hf => ?_⟩, (h.setResource hi _).log _⟩
      simp only [List.mem_cons, List.not_mem_nil, or_false] at hf
      rcases hf with rfl | rfl <;> exact hframe
  · exact refuse h _

theorem peek (h : Beside id r r' s t) (hi : i ≠ id) (key : Value) :
    Parallel id r r' base base' (Machine.peek i key base s) (Machine.peek i key base' t) := by
  have hrequest : t.request key = s.request key := by rw [h.eq]; rfl
  unfold Machine.peek
  rw [h.resources_of_ne hi, hrequest]
  split
  · exact reply ⟨rfl, h⟩
  · split
    · exact refuse h _
    · exact push (h.setResource hi _) _ fun heq => hi (Option.some.inj heq)
  · exact refuse h _

theorem copy (h : Beside id r r' s t) (v : Value) :
    Parallel id r r' base base' (Machine.copy v base s) (Machine.copy v base' t) := by
  have hmemory : t.memory = s.memory := by rw [h.eq]; rfl
  unfold Machine.copy
  rw [hmemory]
  split
  · split <;> first | exact same (h.memory _) _ | exact same h _
  · split <;> first | exact same (h.memory _) _ | exact same h _
  · split <;> first | exact same (h.memory _) _ | exact same h _
  · exact same h _

theorem openView (h : Beside id r r' s t) (hi : i ≠ id) (mode : Mode) (key : Value)
    (body : Value → Program) :
    Parallel id r r' base base' (Machine.openView i mode key body base s)
      (Machine.openView i mode key body base' t) := by
  unfold Machine.openView
  rcases h.openView hi mode key with ⟨f, hs, ht⟩ | ⟨o, o', hs, ht, hcontent, hopened⟩
  · rw [hs, ht]
    exact refuse h f
  · rw [hs, ht]
    dsimp only
    rw [hcontent]
    exact push hopened _ fun heq => hi (Option.some.inj heq)

theorem invoke (h : Beside id r r' s t) (code : Nat) (call : Call) :
    Parallel id r r' base base' (Machine.invoke code call base s)
      (Machine.invoke code call base' t) := by
  have hcode : t.code = s.code := by rw [h.eq]; rfl
  have hoverrides : t.overrides = s.overrides := by rw [h.eq]; rfl
  unfold Machine.invoke
  rw [hcode, hoverrides]
  split
  · exact same h _
  · split
    · exact same h _
    · exact refuse h _
  · exact refuse h _

end Parallel

/-- A layer of a program that is not about the resource does the same in both sessions. -/
theorem parallel_begin (h : Beside id r r' s t) {p : Program} (hp : p.resource? ≠ some id) :
    Parallel id r r' base base' (begin p base s) (begin p base' t) := by
  have hne {place : Place} (hplace : some place.id ≠ some id) : place.id ≠ id :=
    fun heq => hplace (congrArg some heq)
  have hidle : none ≠ some id := Option.some_ne_none id |>.symm
  cases p with
  | done | fail => exact .same h _
  | perform c => exact .reply (h.perform hp)
  | bind | attempt => exact .push h _ hidle
  | on thread body =>
    have hthread : t.thread = s.thread := by rw [h.eq]; rfl
    rw [begin, begin, hthread]
    exact .push (h.thread thread) _ hidle
  | timed label enabled body =>
    have henvironment : t.environment = s.environment := by rw [h.eq]; rfl
    rw [begin, begin, time, time, henvironment]
    split
    · exact .refuse h _
    · exact .push h _ hidle
    · exact .same h _
  | reach target next =>
    rw [begin, begin]
    rcases h.locate target with ⟨f, hs, ht⟩ | ⟨place, s', t', hs, ht, hbeside⟩
    · rw [hs, ht]
      exact .refuse h f
    · rw [hs, ht]
      exact .same hbeside _
  | view place mode key body => exact .openView h (hne hp) mode key body
  | get place key compute => exact .get h (hne hp) key compute
  | peek place key => exact .peek h (hne hp) key
  | copy v => exact .copy h v
  | store body next =>
    have hcode : (t.addCode (.body body)).1 = (s.addCode (.body body)).1 := by rw [h.eq]; rfl
    rw [begin, begin]
    dsimp only
    rw [hcode]
    exact .same (h.addCode _) _
  | locate source next =>
    have hlocated : t.codeAt source = s.codeAt source := by rw [h.eq]; cases source <;> rfl
    rw [begin, begin, hlocated]
    split
    · exact .same h _
    · exact .refuse h _
  | invoke code call => exact .invoke h code call
  | resolve override providers next =>
    have hresolved : t.overrideAndTable override providers =
        s.overrideAndTable override providers := by rw [h.eq]; rfl
    rw [begin, begin, hresolved]
    split
    · exact .same h _
    · exact .refuse h _
  | fetch override table call =>
    have hoverrides : t.overrides = s.overrides := by rw [h.eq]; rfl
    rw [begin, begin, hoverrides]
    split
    · exact .same h _
    · exact .refuse h _

theorem parallel_finish (h : Beside id r r' s t) (hi : i ≠ id) (key : Spelled) (k : Key)
    (outcome : Except Fault Value) :
    Parallel id r r' base base' (finish i key k outcome base s)
      (finish i key k outcome base' t) := by
  unfold finish
  rw [h.resources_of_ne hi]
  split
  · dsimp only
    split
    · exact .same ((h.setResource hi _).foldl_report _) _
    · exact .same ((h.setResource hi _).foldl_report _) _
  · exact .refuse h _

/-- A frame that is not about the resource does the same with a value in both sessions. -/
theorem parallel_resume (h : Beside id r r' s t) {frame : Frame}
    (hframe : frame.resource? ≠ some id) (v : Value) :
    Parallel id r r' base base' (resume v frame base s) (resume v frame base' t) := by
  have hne {i : Nat} (hi : some i ≠ some id) : i ≠ id := fun heq => hi (congrArg some heq)
  cases frame with
  | bind | attempt => exact .same h _
  | thread back => exact .same (h.thread back) _
  | timer label => exact .same (h.log _) _
  | release i mode => exact .same (h.release (hne hframe) mode) _
  | computing i key k => exact parallel_finish h (hne hframe) key k (.ok v)
  | storing i k =>
    rw [resume, resume, deposit, deposit, h.resources_of_ne (hne hframe)]
    split
    · exact .same (h.setResource (hne hframe) _) _
    · exact .refuse h _

/-- A frame that is not about the resource does the same with a fault in both sessions. -/
theorem parallel_unwind (h : Beside id r r' s t) {frame : Frame}
    (hframe : frame.resource? ≠ some id) (f : Fault) :
    Parallel id r r' base base' (unwind f frame base s) (unwind f frame base' t) := by
  have hne {i : Nat} (hi : some i ≠ some id) : i ≠ id := fun heq => hi (congrArg some heq)
  cases frame with
  | bind | storing => exact .same h _
  | attempt kinds handler =>
    rw [unwind, unwind]
    split <;> exact .same h _
  | thread back => exact .same (h.thread back) _
  | timer label => exact .same (h.log _) _
  | release i mode => exact .same (h.release (hne hframe) mode) _
  | computing i key k => exact parallel_finish h (hne hframe) key k (.error f)

end Machine

end CheckedMemo
