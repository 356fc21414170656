import CheckedMemo.Proofs.Contents

/-!
# Stored code, overrides and per-thread caches

What a session has registered under names and numbers is added to and never taken back.  `Revision`
lists every way in which a move can alter it, and `step_revision` says that the list is complete.
From it follow

* `Leads.extends`: numbers keep their code and their override, and a part of a per-thread cache
  stays the part of its thread;
* `Reachable.orderly`: every part is a stable cache that belongs to one thread of one per-thread
  cache, and that no name refers to directly.
-/

namespace CheckedMemo

/-- What a session has registered. -/
structure Registry where
  code : Array Code
  confined : Array Confined
  overrides : Array Override
  providers : Array (Table String Nat)
  names : Table String Handle

namespace Session

/-- What a session has registered. -/
def registry (s : Session) : Registry :=
  ⟨s.code, s.confined, s.overrides, s.providers, s.names⟩

theorem registry_onMemory {α : Type} (s : Session) (f : Memory → α × Memory) :
    (s.onMemory f).2.registry = s.registry := rfl

@[simp] theorem registry_log (s : Session) (e : Event) : (s.log e).registry = s.registry := rfl

@[simp] theorem registry_report (s : Session) (f : Fault) : (s.report f).registry = s.registry := by
  obtain ⟨_, h⟩ := s.report_eq f
  rw [h]
  rfl

theorem registry_inspect (s : Session) (i : Inspection) :
    (s.inspect i).2.registry = s.registry := by
  rcases s.inspect_cases i with h | ⟨_, h⟩
  · rw [h]
  · rw [h]
    rfl

theorem registry_openView {s : Session} {id : Nat} {mode : Mode} {key : Value} {o : Opened}
    (h : s.openView id mode key = .ok o) : o.session.registry = s.registry := by
  obtain ⟨r, -, -, rfl⟩ := openView_eq_ok h
  rfl

theorem registry_view (s : Session) (c : ViewCommand) : (s.view c).2.registry = s.registry := by
  obtain ⟨_, _, h⟩ := s.view_eq c
  rw [h]
  rfl

theorem registry_settings (s : Session) (c : SettingsCommand) :
    (s.settings c).2.registry = s.registry := by
  rcases s.settings_cases c with ⟨_, _, h⟩ | ⟨u, h⟩ | ⟨_, -, h⟩
  · rw [h]
    rfl
  · obtain ⟨_, hu⟩ := s.settingsValue_eq u
    rw [h, hu]
    rfl
  · rw [h]
    rfl

theorem registry_mark (s : Session) (v : Value) : (s.mark v).2.registry = s.registry := by
  obtain ⟨_, h⟩ := s.mark_eq v
  rw [h]
  rfl

/-- The part of a per-thread cache that belongs to a thread. -/
def part (s : Session) (id : Nat) (thread : Thread) : Option Nat :=
  s.confined[id]?.bind (·.caches.get? thread)

end Session

namespace Machine

/-- How a move changes what a session has registered. -/
inductive Revision (m m' : Machine) : Prop where
  /-- Nothing changes. -/
  | same (registry : m'.session.registry = m.session.registry)
  /-- Code of a program is stored. -/
  | store (run : Call → Program) (next : Nat → Program)
    (control : m.control = .eval (.store run next))
    (registry : m'.session.registry =
      { m.session.registry with code := m.session.code.push (.body run) })
  /-- Provider tables change. -/
  | tables (providers : Array (Table String Nat))
    (registry : m'.session.registry = { m.session.registry with providers })
  /-- A hook of an override is stored, and provider tables change. -/
  | hook (id behind : Nat) (o : Override) (found : m.session.overrides[id]? = some o)
    (providers : Array (Table String Nat))
    (registry : m'.session.registry =
      { m.session.registry with code := m.session.code.push (.hook id behind), providers })
  /-- A new cell or cache is named. -/
  | resource (name : String) (h : Handle) (r : Resource)
    (handle : h = .resource m.session.resources.size ∨
      ∃ hint c, h = .scoped m.session.resources.size hint ∧ r = .stable c)
    (resources : m'.session.resources = m.session.resources.push r)
    (registry : m'.session.registry =
      { m.session.registry with names := m.session.names.insert name h })
  /-- A per-thread cache is made. -/
  | confined (name : String) (c : Confined) (fresh : c.caches = ∅)
    (registry : m'.session.registry =
      { m.session.registry with
        confined := m.session.confined.push c
        names := m.session.names.insert name (.confined m.session.confined.size) })
  /-- An override is made, with a per-thread cache for its artifacts. -/
  | override (name : String) (c : Confined) (o : Override) (fresh : c.caches = ∅)
    (artifacts : o.artifacts = m.session.confined.size)
    (registry : m'.session.registry =
      { m.session.registry with
        confined := m.session.confined.push c
        overrides := m.session.overrides.push o
        names := m.session.names.insert name (.override m.session.overrides.size) })
  /-- A provider table is made. -/
  | providers (name : String) (tables : Array (Table String Nat)) (id : Nat)
    (registry : m'.session.registry =
      { m.session.registry with
        providers := tables
        names := m.session.names.insert name (.providers id) })
  /-- A per-thread cache gets a part for the current thread. -/
  | part (id : Nat) (c : Confined) (found : m.session.confined[id]? = some c)
    (absent : c.caches.get? m.session.thread = none)
    (resources : m'.session.resources =
      m.session.resources.push (.stable { guard := { label := c.labelOn m.session.thread } }))
    (registry : m'.session.registry =
      { m.session.registry with
        confined := m.session.confined.setIfInBounds id
          (c.withPart m.session.thread m.session.resources.size) })

variable {m m' : Machine}

theorem registry_reply (stack : List Frame) (r : Except Fault Value × Session) :
    (reply stack r).session.registry = r.2.registry := by
  obtain ⟨_, h⟩ := session_reply_eq stack r
  rw [h]
  rfl

end Machine

/-! ### Steps -/

namespace Machine

variable {m m' : Machine}

theorem revision_of_create (c : Creation)
    (resources : m'.session.resources = (m.session.create c).resources)
    (registry : m'.session.registry = (m.session.create c).registry) : Revision m m' := by
  cases c with
  | cell name | stable name | value name => exact .resource name _ _ (.inl rfl) resources registry
  | «scoped» name => exact .resource name _ _ (.inr ⟨_, _, rfl, rfl⟩) resources registry
  | confined name => exact .confined name _ rfl registry
  | override name => exact .override name _ _ rfl rfl registry
  | providers name => exact .providers name _ _ registry

theorem revision_of_table (c : TableCommand)
    (registry : m'.session.registry = (m.session.table c).2.registry) : Revision m m' := by
  rcases m.session.table_cases c with ⟨_, tables, h⟩ | ⟨_, h⟩ | ⟨id, o, p, t, current, found, h⟩
  · rw [h] at registry
    exact .tables tables registry
  · rw [h] at registry
    exact .same registry
  · rw [h] at registry
    exact .hook id current o found _ registry

theorem revision_of_perform (c : Command)
    (resources : m'.session.resources = (m.session.perform c).2.resources)
    (registry : m'.session.registry = (m.session.perform c).2.registry) : Revision m m' := by
  cases c with
  | create c => exact revision_of_create c resources registry
  | table c => exact revision_of_table c registry
  | memory c =>
    rw [Session.perform, Session.registry_onMemory] at registry
    exact .same registry
  | inspect i =>
    rw [Session.perform, Session.registry_inspect] at registry
    exact .same registry
  | view c =>
    rw [Session.perform, Session.registry_view] at registry
    exact .same registry
  | settings c =>
    rw [Session.perform, Session.registry_settings] at registry
    exact .same registry
  | mark v =>
    rw [Session.perform, Session.registry_mark] at registry
    exact .same registry
  | spell v => exact .same registry

variable (control : Control) (stack : List Frame) (s : Session)

theorem revision_refuse (f : Fault) : Revision ⟨control, stack, s⟩ (refuse f stack s) :=
  .same (Session.registry_report ..)

theorem revision_copy (v : Value) : Revision ⟨control, stack, s⟩ (copy v stack s) := by
  refine .same ?_
  rcases session_copy_cases stack s v with h | ⟨_, h⟩
  · rw [h]
  · rw [h]
    rfl

theorem revision_get (id : Nat) (key : Value) (compute : Value → Program) :
    Revision ⟨control, stack, s⟩ (get id key compute stack s) := by
  obtain ⟨_, _, h⟩ := session_get_eq stack s id key compute
  refine .same ?_
  rw [h]
  rfl

theorem revision_peek (id : Nat) (key : Value) :
    Revision ⟨control, stack, s⟩ (peek id key stack s) := by
  obtain ⟨_, _, h⟩ := session_peek_eq stack s id key
  refine .same ?_
  rw [h]
  rfl

theorem revision_openView (id : Nat) (mode : Mode) (key : Value) (body : Value → Program) :
    Revision ⟨control, stack, s⟩ (openView id mode key body stack s) := by
  unfold openView
  split
  · exact revision_refuse ..
  · rename_i hopened
    exact .same (Session.registry_openView hopened)

/-- A per-thread cache is given a part for the current thread if it has none. -/
theorem revision_of_locateConfined {id : Nat} {place : Place} {s' : Session}
    (h : s.locateConfined id = .ok (place, s')) (control' : Control) (stack' : List Frame) :
    Revision ⟨control, stack, s⟩ ⟨control', stack', s'⟩ := by
  obtain ⟨c, found, -, ⟨-, rfl⟩ | ⟨absent, -, rfl⟩⟩ := Session.locateConfined_eq_ok h
  · exact .same rfl
  · exact .part id c found absent rfl rfl

theorem revision_begin (p : Program) : Revision ⟨.eval p, stack, s⟩ (begin p stack s) := by
  cases p with
  | done | fail | bind | attempt | on => exact .same rfl
  | store run next => exact .store run next rfl rfl
  | perform c =>
    refine revision_of_perform c ?_ (registry_reply ..)
    exact congrArg Shared.resources (shared_reply stack (s.perform c))
  | timed label enabled body =>
    rw [begin, time]
    split
    · exact revision_refuse ..
    · exact .same rfl
    · exact .same rfl
  | reach target next =>
    rw [begin]
    split
    · rename_i hlocate
      rcases Session.locate_eq_ok hlocate with ⟨rfl, -⟩ | ⟨id, hid⟩
      · exact .same rfl
      · exact revision_of_locateConfined _ _ _ hid _ _
    · exact revision_refuse ..
  | view place mode key body => exact revision_openView ..
  | get place key compute => exact revision_get ..
  | peek place key => exact revision_peek ..
  | copy v => exact revision_copy ..
  | invoke code call =>
    rw [begin, invoke]
    split
    · exact .same rfl
    · split
      · exact .same rfl
      · exact revision_refuse ..
    · exact revision_refuse ..
  | locate | resolve | fetch =>
    rw [begin]
    split
    · exact .same rfl
    · exact revision_refuse ..

theorem registry_resume (v : Value) (frame : Frame) :
    (resume v frame stack s).session.registry = s.registry := by
  obtain ⟨_, _, _, h⟩ := session_resume_eq stack s v frame
  rw [h]
  rfl

theorem registry_unwind (f : Fault) (frame : Frame) :
    (unwind f frame stack s).session.registry = s.registry := by
  obtain ⟨_, _, _, h⟩ := session_unwind_eq stack s f frame
  rw [h]
  rfl

/-- Every step changes what is registered in one of the listed ways. -/
theorem step_revision (m : Machine) : Revision m m.step := by
  obtain ⟨control, stack, s⟩ := m
  cases control with
  | eval p => exact revision_begin ..
  | give v =>
    cases stack with
    | nil => exact .same rfl
    | cons frame rest => exact .same (registry_resume ..)
  | raise f =>
    cases stack with
    | nil => exact .same rfl
    | cons frame rest => exact .same (registry_unwind ..)

theorem Move.revision (h : Move m m') : Revision m m' := by
  cases h with
  | step => exact step_revision m
  | next => exact .same rfl

end Machine

/-! ### Numbers keep what they stand for -/

theorem getElem?_push_of_eq_some {α : Type} {xs : Array α} {i : Nat} {a : α}
    (h : xs[i]? = some a) (b : α) : (xs.push b)[i]? = some a := by
  obtain ⟨hi, -⟩ := Array.getElem?_eq_some_iff.mp h
  rw [Array.getElem?_push, if_neg (Nat.ne_of_lt hi), h]

/-- Whether everything that is registered in one session is so in another. -/
structure Session.Extends (s s' : Session) : Prop where
  code {n : Nat} {c : Code} (h : s.code[n]? = some c) : s'.code[n]? = some c
  confined {id : Nat} {c : Confined} (h : s.confined[id]? = some c) :
    ∃ c', s'.confined[id]? = some c' ∧ c'.label = c.label ∧ c'.hint = c.hint
  override {id : Nat} {o : Override} (h : s.overrides[id]? = some o) : s'.overrides[id]? = some o
  part {id r : Nat} {t : Thread} (h : s.part id t = some r) : s'.part id t = some r

namespace Session

variable {s s' s'' : Session}

theorem Extends.refl (s : Session) : s.Extends s := ⟨id, fun h => ⟨_, h, rfl, rfl⟩, id, id⟩

theorem Extends.trans (h : s.Extends s') (h' : s'.Extends s'') : s.Extends s'' := by
  refine ⟨fun hn => h'.code (h.code hn), fun hc => ?_, fun hi => h'.override (h.override hi),
    fun hr => h'.part (h.part hr)⟩
  obtain ⟨c', found', hlabel, hhint⟩ := h.confined hc
  obtain ⟨c'', found'', hlabel', hhint'⟩ := h'.confined found'
  exact ⟨c'', found'', hlabel'.trans hlabel, hhint'.trans hhint⟩

theorem part_of_confined (h : s'.confined = s.confined) : s'.part = s.part := by
  funext id t
  rw [part, h]
  rfl

/-- A new per-thread cache has no parts. -/
theorem part_of_push {c : Confined} (fresh : c.caches = ∅)
    (h : s'.confined = s.confined.push c) : s'.part = s.part := by
  funext id t
  rw [part, part, h, Array.getElem?_push]
  by_cases hid : id = s.confined.size
  · rw [if_pos hid, Option.bind_some, fresh, hid, Array.getElem?_size]
    rfl
  · rw [if_neg hid]

/-- A per-thread cache that is given a part has that part and those that it had. -/
theorem part_of_set {id r : Nat} {c : Confined} {t : Thread} (found : s.confined[id]? = some c)
    (h : s'.confined = s.confined.setIfInBounds id (c.withPart t r)) (id' : Nat) (t' : Thread) :
    s'.part id' t' = if id' = id ∧ t' = t then some r else s.part id' t' := by
  obtain ⟨hid, -⟩ := Array.getElem?_eq_some_iff.mp found
  rw [part, h, Array.getElem?_setIfInBounds]
  by_cases heq : id = id'
  · subst heq
    rw [if_pos rfl, if_pos hid, Option.bind_some, Confined.withPart, Table.get?_insert, part,
      found, Option.bind_some]
    simp
  · rw [if_neg heq, if_neg (fun h => heq h.1.symm), part]

end Session

namespace Machine

variable {m m' : Machine}

/-- A move makes at most one part, for the current thread. -/
theorem Revision.part_cases (h : Revision m m') :
    m'.session.part = m.session.part ∨
      ∃ id c, m.session.confined[id]? = some c ∧ m.session.part id m.session.thread = none ∧
        m'.session.resources =
          m.session.resources.push (.stable { guard := { label := c.labelOn m.session.thread } }) ∧
        ∀ id' t', m'.session.part id' t' =
          if id' = id ∧ t' = m.session.thread then some m.session.resources.size
          else m.session.part id' t' := by
  cases h with
  | same registry | store _ _ _ registry | tables _ registry | hook _ _ _ _ _ registry
  | resource _ _ _ _ _ registry | providers _ _ _ registry =>
    exact .inl (Session.part_of_confined (congrArg Registry.confined registry))
  | confined name c fresh registry | override name c _ fresh _ registry =>
    exact .inl (Session.part_of_push fresh (congrArg Registry.confined registry))
  | part id c found absent resources registry =>
    refine .inr ⟨id, c, found, ?_, resources, ?_⟩
    · rw [Session.part, found]
      exact absent
    · exact Session.part_of_set found (congrArg Registry.confined registry)

/-- A move stores at most one piece of code. -/
theorem Revision.code_cases (h : Revision m m') :
    m'.session.code = m.session.code ∨
      (∃ run next, m.control = .eval (.store run next) ∧
        m'.session.code = m.session.code.push (.body run)) ∨
      ∃ id behind o, m.session.overrides[id]? = some o ∧
        m'.session.code = m.session.code.push (.hook id behind) := by
  cases h with
  | same registry | tables _ registry | resource _ _ _ _ _ registry | confined _ _ _ registry
  | override _ _ _ _ _ registry | providers _ _ _ registry | part _ _ _ _ _ registry =>
    exact .inl (congrArg Registry.code registry)
  | store run next control registry =>
    exact .inr (.inl ⟨run, next, control, congrArg Registry.code registry⟩)
  | hook id behind o found _ registry =>
    exact .inr (.inr ⟨id, behind, o, found, congrArg Registry.code registry⟩)

/-- A move makes at most one per-thread cache, or a part of one. -/
theorem Revision.confined_cases (h : Revision m m') :
    m'.session.confined = m.session.confined ∨
      (∃ c, m'.session.confined = m.session.confined.push c) ∨
      ∃ id c, m.session.confined[id]? = some c ∧
        m'.session.confined = m.session.confined.setIfInBounds id
          (c.withPart m.session.thread m.session.resources.size) := by
  cases h with
  | same registry | store _ _ _ registry | tables _ registry | hook _ _ _ _ _ registry
  | resource _ _ _ _ _ registry | providers _ _ _ registry =>
    exact .inl (congrArg Registry.confined registry)
  | confined _ c _ registry | override _ c _ _ _ registry =>
    exact .inr (.inl ⟨c, congrArg Registry.confined registry⟩)
  | part id c found _ _ registry =>
    exact .inr (.inr ⟨id, c, found, congrArg Registry.confined registry⟩)

/-- A move makes at most one override, with a new per-thread cache for its artifacts. -/
theorem Revision.overrides_cases (h : Revision m m') :
    m'.session.overrides = m.session.overrides ∨
      ∃ o, o.artifacts = m.session.confined.size ∧
        m'.session.overrides = m.session.overrides.push o ∧
        m.session.confined.size < m'.session.confined.size := by
  cases h with
  | same registry | store _ _ _ registry | tables _ registry | hook _ _ _ _ _ registry
  | resource _ _ _ _ _ registry | confined _ _ _ registry | providers _ _ _ registry
  | part _ _ _ _ _ registry => exact .inl (congrArg Registry.overrides registry)
  | override name c o fresh artifacts registry =>
    refine .inr ⟨o, artifacts, congrArg Registry.overrides registry, ?_⟩
    have hconfined : m'.session.confined = m.session.confined.push c :=
      congrArg Registry.confined registry
    rw [hconfined, Array.size_push]
    exact Nat.lt_succ_self _

theorem Revision.extends (h : Revision m m') : m.session.Extends m'.session := by
  refine ⟨?_, ?_, ?_, ?_⟩
  · intro n c hn
    rcases h.code_cases with hcode | ⟨_, _, -, hcode⟩ | ⟨_, _, _, -, hcode⟩
    · rw [hcode, hn]
    · rw [hcode, getElem?_push_of_eq_some hn]
    · rw [hcode, getElem?_push_of_eq_some hn]
  · intro id c found
    rcases h.confined_cases with hconfined | ⟨c', hconfined⟩ | ⟨id', c', found', hconfined⟩
    · exact ⟨c, hconfined ▸ found, rfl, rfl⟩
    · exact ⟨c, by rw [hconfined, getElem?_push_of_eq_some found], rfl, rfl⟩
    · obtain ⟨hid, -⟩ := Array.getElem?_eq_some_iff.mp found'
      rw [hconfined, Array.getElem?_setIfInBounds]
      by_cases heq : id' = id
      · subst heq
        obtain rfl := Option.some.inj (found'.symm.trans found)
        rw [if_pos rfl, if_pos hid]
        exact ⟨_, rfl, rfl, rfl⟩
      · exact ⟨c, by rw [if_neg heq, found], rfl, rfl⟩
  · intro id o ho
    rcases h.overrides_cases with hoverrides | ⟨o', -, hoverrides, -⟩
    · rw [hoverrides, ho]
    · rw [hoverrides, getElem?_push_of_eq_some ho]
  · intro id r t hr
    rcases h.part_cases with hpart | ⟨id', c, -, habsent, -, hpart⟩
    · rw [hpart, hr]
    · rw [hpart, if_neg, hr]
      rintro ⟨rfl, rfl⟩
      cases habsent.symm.trans hr

/-- What is registered stays registered. -/
theorem Leads.extends (h : Leads m m') : m.session.Extends m'.session := by
  induction h with
  | refl => exact .refl _
  | tail _ hmove ih => exact ih.trans hmove.revision.extends

end Machine

/-! ### Parts belong to one thread -/

/-- The order that a session keeps among overrides, per-thread caches, parts and names. -/
structure Session.Orderly (s : Session) : Prop where
  /-- A part is a stable cache. -/
  hosted {id r : Nat} {t : Thread} (h : s.part id t = some r) :
    ∃ c, s.resources[r]? = some (.stable c)
  /-- A part belongs to one thread of one per-thread cache. -/
  apart {id id' r : Nat} {t t' : Thread} (h : s.part id t = some r) (h' : s.part id' t' = some r) :
    id = id' ∧ t = t'
  /-- No name refers to a part, now or later. -/
  named {name : String} {r : Nat} (h : s.names.get? name = some (.resource r) ∨
    ∃ hint, s.names.get? name = some (.scoped r hint)) :
    r < s.resources.size ∧ ∀ id t, s.part id t ≠ some r
  /-- There is a per-thread cache for the artifacts of an override. -/
  owned {id : Nat} {o : Override} (h : s.overrides[id]? = some o) :
    o.artifacts < s.confined.size
  /-- It is the override's own. -/
  distinct {id id' : Nat} {o o' : Override} (h : s.overrides[id]? = some o)
    (h' : s.overrides[id']? = some o') (heq : o.artifacts = o'.artifacts) : id = id'
  /-- A hook is the hook of an override. -/
  hooks {n id behind : Nat} (h : s.code[n]? = some (.hook id behind)) :
    ∃ o, s.overrides[id]? = some o

theorem Session.Orderly.part_lt {s : Session} (hs : s.Orderly) {id r : Nat} {t : Thread}
    (hr : s.part id t = some r) : r < s.resources.size := by
  obtain ⟨c, found⟩ := hs.hosted hr
  exact (Array.getElem?_eq_some_iff.mp found).1

theorem Shared.Keeps.size_le {c c' : Shared} (h : c.Keeps c') :
    c.resources.size ≤ c'.resources.size := by
  by_contra hless
  have hlast : c'.resources.size < c.resources.size := Nat.lt_of_not_le hless
  obtain ⟨r', found', -⟩ := h _ _ (Array.getElem?_eq_getElem hlast)
  exact absurd (Array.getElem?_eq_some_iff.mp found').1 (Nat.lt_irrefl _)

namespace Machine

variable {m m' : Machine}

theorem Revision.confined_size (h : Revision m m') :
    m.session.confined.size ≤ m'.session.confined.size := by
  rcases h.confined_cases with hconfined | ⟨c, hconfined⟩ | ⟨id, c, -, hconfined⟩
  · rw [hconfined]
  · rw [hconfined, Array.size_push]
    exact Nat.le_succ _
  · rw [hconfined, Array.size_setIfInBounds]

/-- A name that refers to a cell or cache directly has done so before, or has just been given to a
new one. -/
theorem Revision.named_cases (h : Revision m m') {name : String} {r : Nat}
    (hname : m'.session.names.get? name = some (.resource r) ∨
      ∃ hint, m'.session.names.get? name = some (.scoped r hint)) :
    (m.session.names.get? name = some (.resource r) ∨
      ∃ hint, m.session.names.get? name = some (.scoped r hint)) ∨
    r = m.session.resources.size ∧ m'.session.part = m.session.part ∧
      ∃ res, m'.session.resources = m.session.resources.push res := by
  have hbound : ∀ {name' : String} {h' : Handle},
      m'.session.names = m.session.names.insert name' h' →
        (h' = .resource r ∨ ∃ hint, h' = .scoped r hint) ∨
          (m.session.names.get? name = some (.resource r) ∨
            ∃ hint, m.session.names.get? name = some (.scoped r hint)) := by
    intro name' h' hnames
    rw [hnames, Table.get?_insert] at hname
    split at hname
    · simpa using Or.inl hname
    · exact .inr hname
  cases h with
  | same registry | store _ _ _ registry | tables _ registry | hook _ _ _ _ _ registry
  | part _ _ _ _ _ registry =>
    have hnames : m'.session.names = m.session.names := congrArg Registry.names registry
    exact .inl (hnames ▸ hname)
  | resource name' h' res handle resources registry =>
    rcases hbound (congrArg Registry.names registry) with hnew | hold
    · have hr : r = m.session.resources.size := by
        rcases handle with rfl | ⟨hint, -, rfl, -⟩ <;> simpa [eq_comm] using hnew
      exact .inr ⟨hr, Session.part_of_confined (congrArg Registry.confined registry), res,
        resources⟩
    · exact .inl hold
  | confined name' _ _ registry | override name' _ _ _ _ registry | providers name' _ _ registry =>
    rcases hbound (congrArg Registry.names registry) with hnew | hold
    · simp at hnew
    · exact .inl hold

/-! The fields of `Session.Orderly` after a move, one by one. -/

theorem hosted_of_revision (hm : m.session.Orderly) (h : Revision m m')
    (keeps : m.session.shared.Keeps m'.session.shared) {id r : Nat} {t : Thread}
    (hr : m'.session.part id t = some r) : ∃ c, m'.session.resources[r]? = some (.stable c) := by
  have hstable (hold : m.session.part id t = some r) :
      ∃ c, m'.session.resources[r]? = some (.stable c) := by
    obtain ⟨c, found⟩ := hm.hosted hold
    obtain ⟨r', found', hsort⟩ := keeps r _ found
    obtain ⟨c', rfl⟩ := hsort.stable
    exact ⟨c', found'⟩
  rcases h.part_cases with hpart | ⟨id', c, -, -, hresources, hpart⟩
  · exact hstable (hpart ▸ hr)
  · rw [hpart] at hr
    split at hr
    · cases hr
      exact ⟨_, by rw [hresources, Array.getElem?_push, if_pos rfl]⟩
    · exact hstable hr

theorem apart_of_revision (hm : m.session.Orderly) (h : Revision m m') {id id' r : Nat}
    {t t' : Thread} (hr : m'.session.part id t = some r) (hr' : m'.session.part id' t' = some r) :
    id = id' ∧ t = t' := by
  rcases h.part_cases with hpart | ⟨i, c, -, -, -, hpart⟩
  · exact hm.apart (hpart ▸ hr) (hpart ▸ hr')
  · -- the new part has a number that none of the others has
    rw [hpart] at hr hr'
    split at hr
    · rename_i hnew
      cases hr
      split at hr'
      · rename_i hnew'
        exact ⟨hnew.1.trans hnew'.1.symm, hnew.2.trans hnew'.2.symm⟩
      · exact absurd (hm.part_lt hr') (Nat.lt_irrefl _)
    · split at hr'
      · cases hr'
        exact absurd (hm.part_lt hr) (Nat.lt_irrefl _)
      · exact hm.apart hr hr'

theorem named_of_revision (hm : m.session.Orderly) (h : Revision m m')
    (keeps : m.session.shared.Keeps m'.session.shared) {name : String} {r : Nat}
    (hname : m'.session.names.get? name = some (.resource r) ∨
      ∃ hint, m'.session.names.get? name = some (.scoped r hint)) :
    r < m'.session.resources.size ∧ ∀ id t, m'.session.part id t ≠ some r := by
  rcases h.named_cases hname with hold | ⟨rfl, hpart, res, hresources⟩
  · obtain ⟨hr, hnone⟩ := hm.named hold
    refine ⟨Nat.lt_of_lt_of_le hr keeps.size_le, ?_⟩
    intro id t
    rcases h.part_cases with hpart | ⟨i, c, -, -, -, hpart⟩
    · rw [hpart]
      exact hnone id t
    · rw [hpart]
      split
      · rintro ⟨⟩
        exact absurd hr (Nat.lt_irrefl _)
      · exact hnone id t
  · refine ⟨?_, ?_⟩
    · rw [hresources, Array.size_push]
      exact Nat.lt_succ_self _
    · intro id t hr
      rw [hpart] at hr
      exact absurd (hm.part_lt hr) (Nat.lt_irrefl _)

theorem owned_of_revision (hm : m.session.Orderly) (h : Revision m m') {id : Nat} {o : Override}
    (ho : m'.session.overrides[id]? = some o) : o.artifacts < m'.session.confined.size := by
  rcases h.overrides_cases with hsame | ⟨new, hartifacts, hpush, hmore⟩
  · exact Nat.lt_of_lt_of_le (hm.owned (hsame ▸ ho)) h.confined_size
  · rw [hpush, Array.getElem?_push] at ho
    split at ho
    · cases ho
      rwa [hartifacts]
    · exact Nat.lt_of_lt_of_le (hm.owned ho) h.confined_size

theorem distinct_of_revision (hm : m.session.Orderly) (h : Revision m m') {id id' : Nat}
    {o o' : Override} (ho : m'.session.overrides[id]? = some o)
    (ho' : m'.session.overrides[id']? = some o') (heq : o.artifacts = o'.artifacts) : id = id' := by
  rcases h.overrides_cases with hsame | ⟨new, hartifacts, hpush, -⟩
  · exact hm.distinct (hsame ▸ ho) (hsame ▸ ho') heq
  · -- the artifacts of a new override have a number that none of the others has
    rw [hpush, Array.getElem?_push] at ho ho'
    split at ho
    · rename_i hid
      cases ho
      split at ho'
      · rename_i hid'
        exact hid.trans hid'.symm
      · have hless := hm.owned ho'
        omega
    · split at ho'
      · cases ho'
        have hless := hm.owned ho
        omega
      · exact hm.distinct ho ho' heq

theorem hooks_of_revision (hm : m.session.Orderly) (h : Revision m m') {n id behind : Nat}
    (hn : m'.session.code[n]? = some (.hook id behind)) :
    ∃ o, m'.session.overrides[id]? = some o := by
  suffices hold : ∃ o, m.session.overrides[id]? = some o by
    obtain ⟨o, ho⟩ := hold
    exact ⟨o, h.extends.override ho⟩
  rcases h.code_cases with hcode | ⟨_, _, -, hcode⟩ | ⟨id', behind', o, found, hcode⟩
  · exact hm.hooks (hcode ▸ hn)
  · rw [hcode, Array.getElem?_push] at hn
    split at hn
    · cases hn
    · exact hm.hooks hn
  · rw [hcode, Array.getElem?_push] at hn
    split at hn
    · cases hn
      exact ⟨o, found⟩
    · exact hm.hooks hn

theorem Revision.orderly (hm : m.session.Orderly) (h : Revision m m')
    (keeps : m.session.shared.Keeps m'.session.shared) : m'.session.Orderly where
  hosted := hosted_of_revision hm h keeps
  apart := apart_of_revision hm h
  named := named_of_revision hm h keeps
  owned := owned_of_revision hm h
  distinct := distinct_of_revision hm h
  hooks := hooks_of_revision hm h

theorem orderly_start (audience : Audience) (environment : List (String × Option String)) :
    (Session.start audience environment).Orderly := by
  have hpart : ∀ id t, (Session.start audience environment).part id t = none := by
    rintro (_ | id) t <;> rfl
  refine ⟨?_, ?_, ?_, ?_, ?_, ?_⟩
  · intro id r t hr
    cases (hpart id t).symm.trans hr
  · intro id id' r t t' hr
    cases (hpart id t).symm.trans hr
  · rintro name r (hname | ⟨hint, hname⟩) <;> cases hname
  · intro id o ho
    cases ho
  · intro id id' o o' ho
    cases ho
  · intro n id behind hn
    cases hn

/-- Every session is orderly. -/
theorem Reachable.orderly (hm : Reachable m) : m.session.Orderly := by
  obtain ⟨audience, environment, p, hm⟩ := hm
  induction hm with
  | refl => exact orderly_start audience environment
  | tail _ hmove ih => exact hmove.revision.orderly ih hmove.change.keeps

end Machine

end CheckedMemo
