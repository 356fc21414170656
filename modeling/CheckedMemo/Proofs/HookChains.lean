import CheckedMemo.Proofs.Extraction
import CheckedMemo.Proofs.Installation

/-!
# Chains of hooks

A query whose provider is a chain of hooks goes through the hooks from the outermost to the
innermost (`Through`).  Each of them extracts the artifact of the key if there is none, with the
arguments of the query, and is skipped otherwise; then the code behind all of them is called with
the same arguments, and its outcome is that of the query.  A hook at which the key cannot be shown,
the timing flag is invalid, or the extraction fails ends the query (`Stops`).  `hook_chain` says
that nothing else can happen.
-/

namespace CheckedMemo

/-- Whether the artifacts of an override on a thread take one for a key: no view of them is active,
and the key is not marked. -/
def Session.TakesArtifact (s : Session) (id : Nat) (t : Thread) (k : Key) : Prop :=
  ∀ c, s.artifactCache id t = some c → c.guard.isBorrowed = false ∧ c.pending.get? k = none

/-- Those of the overrides of a chain that have no artifact for a key yet, outermost first. -/
def Session.lacking (s : Session) (t : Thread) (k : Key) (ids : List Nat) : List Nat :=
  (ids.filter fun i => (s.artifact i t k).isNone).eraseDups

namespace Machine

variable {m n z a : Machine} {id behind base code : Nat} {ids xs : List Nat} {call : Call} {k : Key}
  {t : Thread} {o : Override} {b : Bool}

/-- The hook of an override that is called at `m` passes the call on at `z`; `b` says whether it has
extracted. -/
inductive Passes (call : Call) (k : Key) (id : Nat) (m : Machine) : Bool → Machine → Prop where
  /-- The key has its artifact, and nothing else is looked at. -/
  | present {behind : Nat} {o : Override} {w : Value} (hooking : Hooking id behind o call m)
    (artifact : m.session.artifact id m.session.thread k = some w)
    (silent : Silent m.stack m.step ⟨.eval (.invoke behind call), m.stack, m.session⟩) :
    Passes call k id m false ⟨.eval (.invoke behind call), m.stack, m.session⟩
  /-- The artifact is extracted with the arguments of the query, in a block that is timed as the
  flag says, and stored. -/
  | extracted {behind : Nat} {o : Override} {place : Place} {text : Spelled} {timed : Bool}
    {v : Value} {a a' z : Machine} (hooking : Hooking id behind o call m)
    (absent : m.session.artifact id m.session.thread k = none)
    (flag : m.session.environment.timing = .ok timed) (extracts : Extracts id call m a)
    (stack_eq : a.stack = Frame.timing (o.blockLabel text.text) timed ++
      .populating place call :: .passing behind call :: m.stack)
    (returns : Ends a.stack a a') (value : a'.control = .give v) (silent : Silent m.stack a' z)
    (control : z.control = .eval (.invoke behind call)) (stack : z.stack = m.stack)
    (thread : z.session.thread = m.session.thread)
    (stored : z.session.artifact id m.session.thread k = some v) : Passes call k id m true z

/-- A query goes through the hooks of `ids`, outermost first, from `m` to `n`; those of `xs`
extract. -/
inductive Through (call : Call) (k : Key) : List Nat → Machine → List Nat → Machine → Prop where
  | done (m : Machine) : Through call k [] m [] m
  | skipped {id : Nat} {ids xs : List Nat} {m z n : Machine} (first : Passes call k id m false z)
    (rest : Through call k ids z xs n) : Through call k (id :: ids) m xs n
  | extracted {id : Nat} {ids xs : List Nat} {m z n : Machine} (first : Passes call k id m true z)
    (rest : Through call k ids z xs n) : Through call k (id :: ids) m (id :: xs) n

/-- The hook of an override that is called at `m` does not pass the call on.  The query ends at the
given machine, if it ends; nothing is captured. -/
inductive Stops (call : Call) (k : Key) (id : Nat) (m : Machine) : Option Machine → Prop where
  /-- The key has no artifact, and cannot be shown. -/
  | unshown {behind : Nat} {o : Override} {s : Session} (hooking : Hooking id behind o call m)
    (absent : m.session.artifact id m.session.thread k = none) (showable : k.isShowable = false)
    (silent : Silent m.stack m.step ⟨.raise .unspellable, m.stack, s⟩)
    (same : s.artifactCache = m.session.artifactCache) :
    Stops call k id m (some ⟨.raise .unspellable, m.stack, s⟩)
  /-- The key has no artifact, and the timing flag is invalid. -/
  | unflagged {behind : Nat} {o : Override} {s : Session} {f : Fault}
    (hooking : Hooking id behind o call m)
    (absent : m.session.artifact id m.session.thread k = none)
    (flag : m.session.environment.timing = .error f)
    (silent : Silent m.stack m.step ⟨.raise f, m.stack, s⟩)
    (same : s.artifactCache = m.session.artifactCache) :
    Stops call k id m (some ⟨.raise f, m.stack, s⟩)
  /-- The extraction fails. -/
  | fails {s : Session} {f : Fault} {a a' : Machine} (extracts : Extracts id call m a)
    (returns : Ends a.stack a a') (failure : a'.control = .raise f)
    (silent : Silent m.stack a' ⟨.raise f, m.stack, s⟩)
    (same : s.artifactCache = a'.session.artifactCache) :
    Stops call k id m (some ⟨.raise f, m.stack, s⟩)
  /-- The extraction does not come to an end. -/
  | endless {a : Machine} (extracts : Extracts id call m a) (never : ∀ a', ¬Ends a.stack a a') :
    Stops call k id m none

/-- Whether the extractions of a query leave alone what the hooks of `ids` have captured of its key:
one that returns leaves every override the artifact that it had, and takes none from being
captured. -/
def Undisturbed (call : Call) (k : Key) (ids : List Nat) (m : Machine) : Prop :=
  ∀ id ∈ ids, ∀ n a a' v, Path (fun _ => True) m.stack m n → n.stack = m.stack →
    Extracts id call n a → Ends a.stack a a' → a'.control = .give v → ∀ i ∈ ids,
      (a.session.TakesArtifact i m.session.thread k →
        a'.session.TakesArtifact i m.session.thread k) ∧
      a'.session.artifact i m.session.thread k = a.session.artifact i m.session.thread k

/-! ### Ways through -/

theorem Hooking.path_step (h : Hooking id behind o call m) :
    Path (fun _ => True) m.stack m m.step := by
  obtain ⟨code, control, -⟩ := h.calls
  exact Path.eval control trivial rfl

theorem Extracts.suffix (h : Extracts id call m a) : m.stack <:+ a.stack := by
  obtain ⟨behind, o, hooking, silent, -⟩ := h
  exact silent.suffix hooking.suffix_step

theorem Extracts.path (h : Extracts id call m a) : Path (fun _ => True) m.stack m a := by
  obtain ⟨behind, o, hooking, silent, -⟩ := h
  exact hooking.path_step.trans (silent.mono fun _ _ => trivial)

theorem Passes.path (h : Passes call k id m b z) :
    Path (fun _ => True) m.stack m z ∧ z.stack = m.stack ∧
      z.session.thread = m.session.thread := by
  cases h with
  | present hooking artifact silent =>
    exact ⟨hooking.path_step.trans (silent.mono fun _ _ => trivial), rfl, rfl⟩
  | extracted _ _ _ extracts _ returns _ silent _ stack thread =>
    have hextraction := returns.path.lower extracts.suffix List.suffix_rfl
    exact ⟨extracts.path.trans (hextraction.trans (silent.mono fun _ _ => trivial)), stack, thread⟩

theorem Through.path (h : Through call k ids m xs n) :
    Path (fun _ => True) m.stack m n ∧ n.stack = m.stack ∧
      n.session.thread = m.session.thread := by
  induction h with
  | done => exact ⟨.refl _, rfl, rfl⟩
  | skipped first _ ih | extracted first _ ih =>
    obtain ⟨hpath, hstack, hthread⟩ := first.path
    obtain ⟨hrest, hstack', hthread'⟩ := ih
    rw [hstack] at hrest hstack'
    exact ⟨hpath.trans hrest, hstack', hthread'.trans hthread⟩

/-- Whether a hook has extracted or not, the key has its artifact when the call is passed on. -/
theorem Passes.exists_artifact (h : Passes call k id m b z) :
    ∃ v, z.session.artifact id m.session.thread k = some v := by
  cases h with
  | present _ artifact => exact ⟨_, artifact⟩
  | extracted _ _ _ _ _ _ _ _ _ _ _ stored => exact ⟨_, stored⟩

/-- The overrides whose hooks a query has gone through have an artifact, for good. -/
theorem Through.captured (h : Through call k ids m xs n) (hm : Reachable m) :
    ∀ i ∈ ids, ∃ v, ∀ n', Leads n n' → n'.session.artifact i m.session.thread k = some v := by
  induction h with
  | done => exact fun _ hmem => nomatch hmem
  | skipped first rest ih | extracted first rest ih =>
    obtain ⟨hpath, -, hthread⟩ := first.path
    have hz := hm.leads (hpath.leads List.suffix_rfl)
    have hrest := rest.path.1.leads List.suffix_rfl
    intro i hi
    rcases List.mem_cons.mp hi with rfl | hi
    · obtain ⟨v, hv⟩ := first.exists_artifact
      exact ⟨v, fun n' hn' => hz.artifact_leads hv (hrest.trans hn')⟩
    · rw [← hthread]
      exact ih hz i hi

/-- A program that has ended takes no step. -/
theorem ends_of_isOutcome {m' : Machine} (hc : m.control.isOutcome = true) :
    Ends m.stack m m' ↔ m' = m := by
  constructor
  · exact fun h => h.unique (.here rfl hc)
  · rintro rfl
    exact .here rfl hc

theorem Stops.ends_iff {m' : Machine} {r : Option Machine} (h : Stops call k id m r) :
    Ends m.stack m m' ↔ r = some m' := by
  have hraised {f : Fault} {s : Session}
      (hpath : Path (fun _ => True) m.stack m ⟨.raise f, m.stack, s⟩) :
      Ends m.stack m m' ↔ some ⟨.raise f, m.stack, s⟩ = some m' := by
    rw [hpath.ends_iff, Option.some.injEq, eq_comm]
    exact ends_of_isOutcome (m := ⟨.raise f, m.stack, s⟩) rfl
  cases h with
  | unshown hooking _ _ silent | unflagged hooking _ _ silent =>
    exact hraised (hooking.path_step.trans (silent.mono fun _ _ => trivial))
  | fails extracts returns _ silent =>
    exact hraised (extracts.path.trans ((returns.path.lower extracts.suffix List.suffix_rfl).trans
      (silent.mono fun _ _ => trivial)))
  | endless extracts never =>
    constructor
    · intro hends
      obtain ⟨a', ha'⟩ :=
        (extracts.path.ends_iff.mp hends).exists_above extracts.suffix List.suffix_rfl
      exact absurd ha' (never a')
    · intro heq
      cases heq

/-- A query that ends at a hook raises a fault. -/
theorem Stops.raises {m' : Machine} {r : Option Machine} (h : Stops call k id m r)
    (hr : r = some m') : ∃ f, m'.control = .raise f := by
  cases h with
  | unshown | unflagged | fails =>
    obtain rfl := Option.some.inj hr
    exact ⟨_, rfl⟩
  | endless => cases hr

/-! ### One hook -/

theorem Hooking.unique {behind' : Nat} {o' : Override} (h : Hooking id behind o call m)
    (h' : Hooking id behind' o' call m) : behind = behind' ∧ o = o' := by
  obtain ⟨code, control, found⟩ := h.calls
  obtain ⟨code', control', found'⟩ := h'.calls
  obtain ⟨rfl, -⟩ := Program.invoke.inj (Control.eval.inj (control.symm.trans control'))
  cases found.symm.trans found'
  exact ⟨rfl, Option.some.inj (h.override.symm.trans h'.override)⟩

theorem accepts_of_takesArtifact {s : Session} {c : StableCache} (h : s.TakesArtifact id t k)
    (hc : s.artifactCache id t = some c) : c.Accepts k := by
  obtain ⟨free, unmarked⟩ := h c hc
  exact ⟨Guard.obstacle?_of_not_isBorrowed free .read, .inr ⟨free, unmarked⟩⟩

/-- What one hook leaves to the hooks behind it. -/
structure Leaves (k : Key) (id : Nat) (t : Thread) (i : Nat) (s s' : Session) : Prop where
  takes : s'.TakesArtifact i t k
  artifact : (s'.artifact i t k).isNone = ((s.artifact i t k).isNone && i != id)

/-- An extraction that returns has its value captured, and the call is passed on. -/
theorem Extracts.passes (hm : Reachable m) (hooking : Hooking id behind o call m)
    (hkey : call.key.key = .ok k) (extracts : Extracts id call m a)
    (absent : m.session.artifact id m.session.thread k = none)
    (flag : m.session.environment.timing = .ok b) {text : Spelled} {place : Place}
    (stack_eq : a.stack = Frame.timing (o.blockLabel text.text) b ++
      .populating place call :: .passing behind call :: m.stack) {a' : Machine} {v : Value}
    (returns : Ends a.stack a a') (value : a'.control = .give v) (hid : id ∈ ids)
    (kept : ∀ i ∈ ids, a'.session.TakesArtifact i m.session.thread k ∧
      a'.session.artifact i m.session.thread k = m.session.artifact i m.session.thread k) :
    ∃ z, Passes call k id m true z ∧ z.control = .eval (.invoke behind call) ∧
      ∀ i ∈ ids, Leaves k id m.session.thread i m.session z.session := by
  obtain ⟨behind', o', place', c, label, timed, hooking', hm', showable, hthread, hpart, found,
    ha'⟩ := extracts.returned hm returns value hkey
  obtain ⟨rfl, rfl⟩ := hooking.unique hooking'
  have ho : a'.session.overrides[id]? = some o := hm'.extends.override hooking.override
  have hcache : a'.session.artifactCache id m.session.thread = some c := by
    rw [Session.artifactCache, ho, Option.bind_some, Session.confinedCache_of_part hpart]
    exact Session.stableAt_eq_some_iff.mpr found
  have hslot : c.slots.get? k = none := by
    rw [← Session.artifact_of_part ho hpart found, (kept id hid).2, absent]
  obtain ⟨z, c', silent, -, control, stack, hthread', hstores, hcaches⟩ :=
    (hm.leads hm').captures ha' ho hpart found hkey showable
      (accepts_of_takesArtifact (kept id hid).1 hcache)
  have hown := (hcaches id).trans (if_pos rfl)
  have hstored : z.session.artifact id m.session.thread k = some v := by
    rw [artifact_of_storesAs hown hstores, hslot, Option.getD_none]
  refine ⟨z, .extracted hooking absent flag extracts stack_eq returns value silent control stack
    (hthread'.trans hthread) hstored, control, fun i hi => ?_⟩
  obtain ⟨htakes, hsame⟩ := kept i hi
  by_cases heq : i = id
  · subst heq
    refine ⟨fun c₁ hc₁ => ?_, ?_⟩
    · obtain rfl : c' = c₁ := Option.some.inj (hown.symm.trans hc₁)
      rw [hstores.guard, hstores.pending]
      exact htakes c hcache
    · rw [hstored]
      simp
  · have hother := (hcaches i).trans (if_neg heq)
    refine ⟨fun c₁ hc₁ => htakes c₁ (hother ▸ hc₁), ?_⟩
    rw [Session.artifact, hother, ← Session.artifact, hsame]
    simp [heq]

/-- A call for a key that has its artifact is passed on. -/
theorem Hooking.passes_of_artifact (hm : Reachable m) (hooking : Hooking id behind o call m)
    (hkey : call.key.key = .ok k) (takes : m.session.TakesArtifact id m.session.thread k)
    {w : Value} (hw : m.session.artifact id m.session.thread k = some w) :
    Passes call k id m false ⟨.eval (.invoke behind call), m.stack, m.session⟩ := by
  obtain ⟨place, s, c, located, locates, found, hart⟩ := hooking.exists_located hm
  have hslot : c.slots.get? k = some w := by
    rwa [Session.artifact, hart, Option.bind_some] at hw
  obtain ⟨r, hpart⟩ : ∃ r, m.session.part o.artifacts m.session.thread = some r := by
    rw [Session.artifactCache, hooking.override, Option.bind_some] at hart
    exact Session.part_of_slots hart hslot
  obtain rfl := locates.same hpart
  have hcontains : c.contains (m.session.request call.key) = .ok true :=
    StableCache.contains_eq_ok_iff.mpr ⟨(accepts_of_takesArtifact takes hart).1, k,
      Request.index_eq_ok_iff.mpr hkey, by rw [hslot]; rfl⟩
  refine .present hooking hw ?_
  rw [hooking.step_eq]
  exact silent_present located found hcontains

/-- For a key that has no artifact an extraction is started, or the call ends there. -/
theorem Hooking.starts_or_stops (hm : Reachable m) (hooking : Hooking id behind o call m)
    (hkey : call.key.key = .ok k) (takes : m.session.TakesArtifact id m.session.thread k)
    (absent : m.session.artifact id m.session.thread k = none) :
    (∃ (a : Machine) (place : Place) (text : Spelled) (b : Bool), Extracts id call m a ∧
      m.session.environment.timing = .ok b ∧ a.session.artifactCache = m.session.artifactCache ∧
      a.stack = Frame.timing (o.blockLabel text.text) b ++
        .populating place call :: .passing behind call :: m.stack) ∨
    ∃ r, Stops call k id m r := by
  obtain ⟨place, s, c, located, locates, found, hart⟩ := hooking.exists_located hm
  have hslot : c.slots.get? k = none := by
    rwa [Session.artifact, hart, Option.bind_some] at absent
  have hcontains : c.contains (s.request call.key) = .ok false :=
    StableCache.contains_eq_ok_iff.mpr ⟨(accepts_of_takesArtifact takes hart).1, k,
      Request.index_eq_ok_iff.mpr hkey, by rw [hslot]; rfl⟩
  have hcaches : s.artifactCache = m.session.artifactCache :=
    funext fun i => funext fun t => locates.artifactCache_eq i t
  have henvironment : s.environment = m.session.environment := by
    obtain ⟨resources, confined, rfl⟩ := locates.rest
    rfl
  have hbefore : Silent m.stack ⟨.eval (o.hook id behind call), m.stack, m.session⟩
      ⟨.eval (o.extraction call), .populating place call :: .passing behind call :: m.stack, s⟩ :=
    silent_absent located found hcontains
  rw [← hooking.step_eq] at hbefore
  have hstack : m.stack <:+ .populating place call :: .passing behind call :: m.stack :=
    (List.suffix_cons ..).trans (List.suffix_cons ..)
  by_cases showable : k.isShowable = true
  · obtain ⟨text, hspelled⟩ := (s.spelled_isOk_iff hkey).mpr showable
    cases hflag : m.session.environment.timing with
    | error f =>
      have hstop := silent_extraction_unflagged (o := o) hstack hspelled (henvironment ▸ hflag)
      refine .inr ⟨_, .unflagged hooking absent hflag
        ((hbefore.trans hstop).trans (silent_failed "" false)) ?_⟩
      exact (s.artifactCache_report f).trans hcaches
    | ok b =>
      have hasked := silent_extraction (o := o) hstack hspelled (henvironment ▸ hflag)
      refine .inl ⟨_, place, text, b, ⟨behind, o, hooking, hbefore.trans hasked, rfl, fun h => ?_⟩,
        rfl, hcaches, rfl⟩
      have hlength := congrArg List.length h
      simp only [List.length_append, List.length_cons] at hlength
      omega
  · have hunshown : k.isShowable = false := Bool.eq_false_iff.mpr showable
    have hspelled : (s.request call.key).spelled = .error .unspellable :=
      Session.spelled_eq_error hkey hunshown
    have hstop := silent_extraction_unspelled (o := o) hstack hspelled
    refine .inr ⟨_, .unshown hooking absent hunshown
      ((hbefore.trans hstop).trans (silent_failed "" false)) ?_⟩
    exact (s.artifactCache_report .unspellable).trans hcaches

/-- A hook passes the call on, or ends it. -/
theorem Hooking.passes_or_stops (hm : Reachable m) (hooking : Hooking id behind o call m)
    (hkey : call.key.key = .ok k) (hid : id ∈ ids)
    (takes : ∀ i ∈ ids, m.session.TakesArtifact i m.session.thread k)
    (undisturbed : Undisturbed call k ids m) :
    (∃ z, Passes call k id m (m.session.artifact id m.session.thread k).isNone z ∧
      z.control = .eval (.invoke behind call) ∧
      ∀ i ∈ ids, Leaves k id m.session.thread i m.session z.session) ∨
    ∃ r, Stops call k id m r := by
  cases hw : m.session.artifact id m.session.thread k with
  | some w =>
    refine .inl ⟨_, hooking.passes_of_artifact hm hkey (takes id hid) hw, rfl, fun i hi => ?_⟩
    refine ⟨takes i hi, ?_⟩
    by_cases heq : i = id
    · subst heq
      simp [hw]
    · simp [heq]
  | none =>
    rcases hooking.starts_or_stops hm hkey (takes id hid) hw with
      ⟨a, place, text, b, extracts, flag, hcaches, stack_eq⟩ | hstops
    · by_cases hends : ∃ a', Ends a.stack a a'
      · obtain ⟨a', returns⟩ := hends
        cases hcontrol : a'.control with
        | eval p => cases hcontrol ▸ returns.isOutcome
        | give v =>
          refine .inl (extracts.passes hm hooking hkey hw flag stack_eq returns hcontrol hid ?_)
          intro i hi
          obtain ⟨htakes, hsame⟩ :=
            undisturbed id hid m a a' v (.refl m) rfl extracts returns hcontrol i hi
          refine ⟨htakes ?_, ?_⟩
          · rw [Session.TakesArtifact, hcaches]
            exact takes i hi
          · rw [hsame, Session.artifact, hcaches, ← Session.artifact]
        | raise f =>
          have ha' : a' = ⟨.raise f, Frame.timing (o.blockLabel text.text) b ++
              .populating place call :: .passing behind call :: m.stack, a'.session⟩ := by
            rw [← hcontrol, ← stack_eq, ← returns.stack_eq]
          have hfailed : Silent m.stack ⟨.raise f, Frame.timing (o.blockLabel text.text) b ++
              .populating place call :: .passing behind call :: m.stack, a'.session⟩
              ⟨.raise f, m.stack, a'.session.timed (o.blockLabel text.text) b⟩ := silent_failed ..
          rw [← ha'] at hfailed
          exact .inr ⟨_, .fails extracts returns hcontrol hfailed
            (Session.artifactCache_congr (a'.session.shared_timed ..)
              (a'.session.registry_timed ..))⟩
      · exact .inr ⟨_, .endless extracts (not_exists.mp hends)⟩
    · exact .inr hstops

/-! ### All hooks of a chain -/

theorem Undisturbed.after (h : Undisturbed call k (id :: ids) m)
    (hpath : Path (fun _ => True) m.stack m z) (hstack : z.stack = m.stack)
    (hthread : z.session.thread = m.session.thread) : Undisturbed call k ids z := by
  intro i hi n a a' v hn hn' extracts returns hv i' hi'
  rw [hstack] at hn hn'
  rw [hthread]
  exact h i (.tail _ hi) n a a' v (hpath.trans hn) hn' extracts returns hv i' (.tail _ hi')

theorem lacking_of_leaves {s s' : Session} (h : ∀ i ∈ ids, Leaves k id t i s s') :
    s.lacking t k (id :: ids) =
      if (s.artifact id t k).isNone then id :: s'.lacking t k ids else s'.lacking t k ids := by
  have hrest : s'.lacking t k ids =
      ((ids.filter fun i => (s.artifact i t k).isNone).filter (· != id)).eraseDups := by
    rw [Session.lacking, List.filter_filter]
    congr 1
    refine List.filter_congr fun i hi => ?_
    rw [(h i hi).artifact, Bool.and_comm]
  rw [hrest, Session.lacking, List.filter_cons]
  split
  · rw [List.eraseDups_cons]
    rfl
  · rename_i hpresent
    have hothers : (ids.filter fun i => (s.artifact i t k).isNone).filter (· != id) =
        ids.filter fun i => (s.artifact i t k).isNone := by
      refine List.filter_eq_self.mpr fun i hi => bne_iff_ne.mpr ?_
      rintro rfl
      exact hpresent (List.mem_filter.mp hi).2
    rw [hothers]

/-- A query that goes through the first hook and those behind it goes through the chain. -/
theorem Passes.through
    (first : Passes call k id m (m.session.artifact id m.session.thread k).isNone z)
    (leaves : ∀ i ∈ id :: ids, Leaves k id m.session.thread i m.session z.session)
    (rest : Through call k ids z (z.session.lacking z.session.thread k ids) n) :
    Through call k (id :: ids) m (m.session.lacking m.session.thread k (id :: ids)) n := by
  obtain ⟨-, -, hthread⟩ := first.path
  rw [hthread] at rest
  rw [lacking_of_leaves fun i hi => leaves i (.tail _ hi)]
  split
  · rename_i habsent
    rw [habsent] at first
    exact .extracted first rest
  · rename_i hpresent
    rw [Bool.eq_false_iff.mpr hpresent] at first
    exact .skipped first rest

/-- A query goes through a chain of hooks, or ends at one of them. -/
theorem through_or_stops (hooked : Hooked m.session.code base code ids) (hm : Reachable m)
    (query : m.control = .eval (.invoke code call)) (hkey : call.key.key = .ok k)
    (takes : ∀ i ∈ ids, m.session.TakesArtifact i m.session.thread k)
    (undisturbed : Undisturbed call k ids m) :
    (∃ n, Through call k ids m (m.session.lacking m.session.thread k ids) n ∧
      n.control = .eval (.invoke base call)) ∨
    ∃ outer id inner n r, ids = outer ++ id :: inner ∧
      Through call k outer m (m.session.lacking m.session.thread k outer) n ∧
      Stops call k id n r := by
  -- on the chain, from the outermost hook: what is behind a hook is a chain for the same call again
  induction ids generalizing m code with
  | nil =>
    cases hooked
    exact .inl ⟨m, .done m, query⟩
  | cons id ids ih =>
    cases hooked with
    | @hook _ _ behind _ found rest =>
      obtain ⟨o, ho⟩ := hm.orderly.hooks found
      have hooking : Hooking id behind o call m := ⟨⟨code, query, found⟩, ho⟩
      rcases hooking.passes_or_stops hm hkey (.head _) takes undisturbed with
        ⟨z, first, control, leaves⟩ | ⟨r, stops⟩
      · obtain ⟨hpath, hstack, hthread⟩ := first.path
        have hleads := hpath.leads List.suffix_rfl
        have htakes : ∀ i ∈ ids, z.session.TakesArtifact i z.session.thread k := by
          intro i hi
          rw [hthread]
          exact (leaves i (.tail _ hi)).takes
        rcases ih (rest.extends hleads.extends) (hm.leads hleads) control htakes
            (undisturbed.after hpath hstack hthread) with
          ⟨n, through, hn⟩ | ⟨outer, i, inner, n, r, rfl, through, stops⟩
        · exact .inl ⟨n, first.through leaves through, hn⟩
        · refine .inr ⟨id :: outer, i, inner, n, r, rfl, ?_, stops⟩
          refine first.through (fun j hj => leaves j ?_) through
          rcases List.mem_cons.mp hj with rfl | hj
          · exact .head _
          · exact .tail _ (List.mem_append_left _ hj)
      · exact .inr ⟨[], id, ids, m, r, rfl, .done m, stops⟩

/-! ### Installations -/

/-- What an installation at `m` comes to. -/
inductive Installs (p : Nat) (query : String) (id : Nat) (m : Machine) : Prop where
  /-- There is no provider to be wrapped, and nothing changes. -/
  | unknown {f : Fault} (entry : m.session.entry p query = none) (kind : f.kind = .missingKey)
    (step : m.step = ⟨.raise f, m.stack, m.session⟩)
  /-- The provider is a hook of the override, and nothing changes. -/
  | own {e : Nat} {f : Fault} (entry : m.session.entry p query = some e)
    (own : ∃ behind, m.session.code[e]? = some (.hook id behind)) (kind : f.kind = .badValue)
    (step : m.step = ⟨.raise f, m.stack, m.session⟩)
  /-- A hook in front of the provider takes its place, and no other entry changes. -/
  | installed {e : Nat} (entry : m.session.entry p query = some e)
    (other : ∀ behind, m.session.code[e]? ≠ some (.hook id behind))
    (control : m.step.control = .give .null) (stack : m.step.stack = m.stack)
    (hook : m.step.session.code[m.session.code.size]? = some (.hook id e))
    (entries : ∀ p' query', m.step.session.entry p' query' =
      if p' = p ∧ query' = query then some m.session.code.size else m.session.entry p' query')
    (rest : ∃ code providers journal,
      m.step.session = { m.session with code, providers, journal })

theorem isHookOf_eq_true_iff {s : Session} {e : Nat} :
    s.isHookOf id e = true ↔ ∃ behind, s.code[e]? = some (.hook id behind) := by
  unfold Session.isHookOf
  split
  · rename_i owner behind found
    rw [found]
    simp [eq_comm]
  · rename_i hnone
    constructor
    · exact fun h => nomatch h
    · rintro ⟨behind, found⟩
      exact absurd found (hnone id behind)

theorem Installing.installs {p : Nat} {query : String} (h : Installing p query id m) :
    Installs p query id m := by
  cases he : m.session.entry p query with
  | none =>
    obtain ⟨override, providers, o, t, control, ho, rfl, ht⟩ := h
    refine .unknown he (f := .unknownQuery o.query) rfl ?_
    rw [Session.entry_of_tableNamed ht] at he
    rw [step_install control, Session.install_of_absent ho ht he]
    rfl
  | some e =>
    by_cases hown : m.session.isHookOf id e = true
    · exact .own he (isHookOf_eq_true_iff.mp hown) rfl (h.step_of_own he hown)
    · obtain ⟨o, t, rfl, -, found, hstep⟩ := h.step_of_other he (Bool.eq_false_iff.mpr hown)
      refine .installed he (fun behind hb => hown (isHookOf_eq_true_iff.mpr ⟨behind, hb⟩))
        ?_ ?_ ?_ ?_ ?_
      · rw [hstep]
      · rw [hstep]
      · rw [hstep]
        exact Session.code_installed
      · rw [hstep]
        exact Session.entry_installed found
      · rw [hstep]
        exact ⟨_, _, _, rfl⟩

/-! ### Main statement -/

/-- **Hooks answer in turn.**  An installation puts a hook in front of the provider that it finds,
or fails and changes nothing.  A query whose provider is a chain of hooks, and whose extractions
leave alone what has been captured of its key, goes through the hooks from the outermost on, and
those extract whose override lacks the artifact.  Then the code behind the chain is called, whose
outcome is that of the query.  Otherwise the query comes to a hook that does not pass it on, and
what is behind that hook is not called.  What has been captured on the way stays captured. -/
theorem hook_chain (m : Machine) :
    (∀ p query id, Installing p query id m → Installs p query id m) ∧
    ∀ (base code : Nat) (call : Call) (k : Key) (ids : List Nat), Reachable m →
      m.control = .eval (.invoke code call) → Hooked m.session.code base code ids →
      call.key.key = .ok k → (∀ i ∈ ids, m.session.TakesArtifact i m.session.thread k) →
      Undisturbed call k ids m →
      (∃ n, Through call k ids m (m.session.lacking m.session.thread k ids) n ∧
        n.control = .eval (.invoke base call) ∧ n.stack = m.stack ∧
        n.session.thread = m.session.thread ∧ (∀ m', Ends m.stack m m' ↔ Ends m.stack n m') ∧
        ∀ i ∈ ids, ∃ v, ∀ n', Leads n n' →
          n'.session.artifact i m.session.thread k = some v) ∨
      ∃ outer id inner n r, ids = outer ++ id :: inner ∧
        Through call k outer m (m.session.lacking m.session.thread k outer) n ∧
        Stops call k id n r ∧ (∀ m', Ends m.stack m m' ↔ r = some m') ∧
        ∀ i ∈ outer, ∃ v, ∀ n', Leads n n' →
          n'.session.artifact i m.session.thread k = some v := by
  refine ⟨fun p query id h => h.installs, ?_⟩
  intro base code call k ids hm query hooked hkey takes undisturbed
  rcases through_or_stops hooked hm query hkey takes undisturbed with
    ⟨n, through, control⟩ | ⟨outer, id, inner, n, r, hids, through, stops⟩
  · obtain ⟨hpath, hstack, hthread⟩ := through.path
    exact .inl ⟨n, through, control, hstack, hthread, fun _ => hpath.ends_iff,
      through.captured hm⟩
  · obtain ⟨hpath, hstack, -⟩ := through.path
    refine .inr ⟨outer, id, inner, n, r, hids, through, stops, fun m' => ?_, through.captured hm⟩
    rw [hpath.ends_iff, ← hstack]
    exact stops.ends_iff

/-- Extractions that do nothing but give a value disturb nothing. -/
theorem undisturbed_of_done (h : ∀ id ∈ ids, ∃ o run v, m.session.overrides[id]? = some o ∧
    m.session.code[o.extract]? = some (.body run) ∧ run call = .done v) :
    Undisturbed call k ids m := by
  intro id hid n a a' v hpath hstack extracts returns hv
  obtain ⟨o, run, w, ho, hcode, hrun⟩ := h id hid
  have hn : Leads m n := hpath.leads List.suffix_rfl
  have ha : Leads n a := extracts.path.leads List.suffix_rfl
  obtain ⟨behind, o', hooking, -, control, -⟩ := extracts
  obtain rfl : o = o' := Option.some.inj ((hn.extends.override ho).symm.trans hooking.override)
  have hcode' := ha.extends.code (hn.extends.code hcode)
  have hstep : a.step = ⟨.eval (.done w), a.stack, a.session⟩ := by
    rw [step, control, ← hrun]
    show invoke o.extract call a.stack a.session = _
    rw [invoke, hcode']
  have hgiven : Path (fun _ => True) a.stack a ⟨.give w, a.stack, a.session⟩ :=
    (Path.eval control trivial hstep).trans (Path.eval rfl trivial rfl)
  obtain rfl := returns.unique (hgiven.ends_iff.mpr (.here rfl rfl))
  exact fun i _ => ⟨fun htakes => htakes, rfl⟩

/-- The query of a chain of three hooks, two of which are of the same override. -/
def queryingChain (key : Value) : Machine :=
  load (.invoke 3 { key, positional := [.int 1] }) (installingAgain.run 2).session

theorem reachable_queryingChain (key : Value) : Reachable (queryingChain key) :=
  ((((Reachable.start ..).leads (leads_run ..)).leads (leads_run ..)).leads (leads_run ..)).move
    (.next rfl _)

theorem hooked_queryingChain (key : Value) :
    Hooked (queryingChain key).session.code 0 3 [0, 1, 0] :=
  .hook rfl (.hook rfl (.hook rfl .base))

theorem takesArtifact_queryingChain (key : Value) (k : Key) :
    ∀ i ∈ [0, 1, 0], (queryingChain key).session.TakesArtifact i "main" k := by
  intro i hi c hc
  obtain rfl | rfl | rfl : i = 0 ∨ i = 1 ∨ i = 0 := by simpa using hi
  all_goals
    cases hc
    exact ⟨rfl, rfl⟩

theorem undisturbed_queryingChain (key : Value) (k : Key) :
    Undisturbed { key, positional := [.int 1] } k [0, 1, 0] (queryingChain key) := by
  refine undisturbed_of_done fun id hid => ?_
  obtain rfl | rfl | rfl : id = 0 ∨ id = 1 ∨ id = 0 := by simpa using hid
  all_goals exact ⟨_, _, _, rfl, rfl, rfl⟩

theorem hook_chain_queryingChain :
    Installs 0 "q" 0 installingAgain ∧ Reachable (queryingChain (.text "k")) ∧
      (queryingChain (.text "k")).control =
        .eval (.invoke 3 { key := .text "k", positional := [.int 1] }) ∧
      Hooked (queryingChain (.text "k")).session.code 0 3 [0, 1, 0] ∧
      (∀ i ∈ [0, 1, 0], (queryingChain (.text "k")).session.TakesArtifact i "main"
        (.ofAtoms [.text "k"])) ∧
      Undisturbed { key := .text "k", positional := [.int 1] } (.ofAtoms [.text "k"]) [0, 1, 0]
        (queryingChain (.text "k")) ∧
      ∃ n, Through { key := .text "k", positional := [.int 1] } (.ofAtoms [.text "k"]) [0, 1, 0]
        (queryingChain (.text "k")) [0, 1] n ∧
        n.control = .eval (.invoke 0 { key := .text "k", positional := [.int 1] }) := by
  have hinstalling : Installing 0 "q" 0 installingAgain := ⟨"a", "p", _, _, rfl, rfl, rfl, rfl⟩
  refine ⟨(hook_chain _).1 _ _ _ hinstalling, reachable_queryingChain _, rfl,
    hooked_queryingChain _, takesArtifact_queryingChain _ _, undisturbed_queryingChain _ _, ?_⟩
  rcases (hook_chain _).2 _ _ _ _ _ (reachable_queryingChain (.text "k")) rfl
    (hooked_queryingChain _) rfl (takesArtifact_queryingChain _ _)
    (undisturbed_queryingChain _ _) with
    ⟨n, through, control, -⟩ | ⟨_, _, _, _, _, -, -, stops, hends, -⟩
  · exact ⟨n, through, control⟩
  · -- no hook ends the query, which gives a value
    have hanswer : Ends [] (queryingChain (.text "k"))
        ((queryingChain (.text "k")).run 60) := .of_find? 60 List.suffix_rfl rfl
    obtain ⟨f, hf⟩ := stops.raises ((hends _).mp hanswer)
    cases hf

/-- A query for a key that cannot be shown, and has no artifact, ends at the outermost hook: nothing
is extracted, and the code behind the chain is not called. -/
theorem unanswered_on_long_key :
    ∃ k, longKey.key = .ok k ∧ Reachable (queryingChain longKey) ∧
      (queryingChain longKey).control =
        .eval (.invoke 3 { key := longKey, positional := [.int 1] }) ∧
      Hooked (queryingChain longKey).session.code 0 3 [0, 1, 0] ∧
      (∀ i ∈ [0, 1, 0], (queryingChain longKey).session.TakesArtifact i "main" k) ∧
      Undisturbed { key := longKey, positional := [.int 1] } k [0, 1, 0] (queryingChain longKey) ∧
      (queryingChain longKey).session.environment.timing = .ok false ∧
      (queryingChain longKey).session.artifact 0 "main" k = none ∧
      (∀ a, ¬Extracts 0 { key := longKey, positional := [.int 1] } (queryingChain longKey) a) ∧
      ∃ s, Ends [] (queryingChain longKey) ⟨.raise .unspellable, [], s⟩ := by
  obtain ⟨k, hk⟩ : ∃ k, longKey.key = .ok k := ⟨_, rfl⟩
  have hm := reachable_queryingChain longKey
  have habsent : (queryingChain longKey).session.artifact 0 "main" k = none := rfl
  have hextracts (a : Machine) :
      ¬Extracts 0 { key := longKey, positional := [.int 1] } (queryingChain longKey) a := by
    intro extracts
    obtain ⟨_, _, _, s, _, text, _, -, -, -, -, -, -, hspelled, -⟩ := extracts.inv hm
    have hshowable := (s.spelled_isOk_iff hk).mp ⟨text, hspelled⟩
    cases hshowable.symm.trans (not_isShowable_of_longKey hk)
  refine ⟨k, hk, hm, rfl, hooked_queryingChain _, takesArtifact_queryingChain _ _,
    undisturbed_queryingChain _ _, rfl, habsent, hextracts, ?_⟩
  have hooking : Hooking 0 2 ⟨"q", 0, 1⟩ { key := longKey, positional := [.int 1] }
      (queryingChain longKey) := ⟨⟨3, rfl, rfl⟩, rfl⟩
  rcases hooking.starts_or_stops hm hk (takesArtifact_queryingChain _ _ 0 (.head _)) habsent with
    ⟨a, -, -, -, extracts, -⟩ | ⟨r, stops⟩
  · exact absurd extracts (hextracts a)
  · have hends (m' : Machine) :
        Ends (queryingChain longKey).stack (queryingChain longKey) m' ↔ r = some m' :=
      stops.ends_iff
    cases stops with
    | unshown => exact ⟨_, (hends _).mpr rfl⟩
    | unflagged _ _ flag => cases flag
    | fails extracts | endless extracts => exact absurd extracts (hextracts _)

end Machine

end CheckedMemo
