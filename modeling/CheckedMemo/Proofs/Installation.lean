import CheckedMemo.Proofs.Registry
import Mathlib.Data.List.Destutter

/-!
# Installing overrides one over another

An entry of a provider table that starts as plain code and is changed only by installations holds a
chain of hooks around that code.  An override is refused exactly while its own hook is the outermost
one, so the chain shows who asked in turn, with repetitions left out (`installed_in_turn`).  The
hooks of one override may therefore stand in a chain more than once (`wrapped_twice`).
-/

namespace CheckedMemo

/-- Whether the code `n` is a chain of hooks around the code `base`; `owners` are the overrides they
belong to, outermost first. -/
inductive Hooked (code : Array Code) (base : Nat) : Nat → List Nat → Prop where
  | base : Hooked code base base []
  | hook {n id behind : Nat} {owners : List Nat} (found : code[n]? = some (.hook id behind))
    (rest : Hooked code base behind owners) : Hooked code base n (id :: owners)

theorem Hooked.extends {s s' : Session} (h : s.Extends s') {base n : Nat} {owners : List Nat}
    (hn : Hooked s.code base n owners) : Hooked s'.code base n owners := by
  induction hn with
  | base => exact .base
  | hook found _ ih => exact .hook (h.code found) ih

namespace Session

/-- The code that answers a query of a provider table. -/
def entry (s : Session) (p : Nat) (query : String) : Option Nat :=
  s.providers[p]?.bind (·.get? query)

variable {s : Session} {override providers : String} {id p current : Nat} {o : Override}
  {t : Table String Nat}

theorem providers_of_tableNamed (h : s.tableNamed providers = .ok (p, t)) :
    s.providers[p]? = some t := by
  unfold tableNamed at h
  split at h
  · split at h
    · rename_i found
      cases h
      exact found
    · cases h
  · cases h

theorem entry_of_tableNamed (h : s.tableNamed providers = .ok (p, t)) (query : String) :
    s.entry p query = t.get? query := by
  rw [entry, providers_of_tableNamed h]
  rfl

/-- An installation changes the entry that it is about, and no other. -/
theorem entry_installed (found : s.providers[p]? = some t) (p' : Nat) (query : String) :
    (s.installed id o p t current).entry p' query =
      if p' = p ∧ query = o.query then some s.code.size else s.entry p' query := by
  obtain ⟨hp, -⟩ := Array.getElem?_eq_some_iff.mp found
  have hproviders : (s.installed id o p t current).providers =
      s.providers.setIfInBounds p (t.insert o.query s.code.size) := rfl
  rw [entry, entry, hproviders, Array.getElem?_setIfInBounds]
  by_cases heq : p = p'
  · subst heq
    rw [if_pos rfl, if_pos hp, Option.bind_some, Table.get?_insert, found, Option.bind_some]
    simp
  · rw [if_neg heq, if_neg (fun h => heq h.1.symm)]

theorem code_installed :
    (s.installed id o p t current).code[s.code.size]? = some (.hook id current) := by
  have hcode : (s.installed id o p t current).code = s.code.push (.hook id current) := rfl
  rw [hcode, Array.getElem?_push, if_pos rfl]

/-- The outermost hook of a chain is that of the first owner. -/
theorem isHookOf_iff {base n : Nat} {owners : List Nat} {run : Call → Program}
    (h : Hooked s.code base n owners) (plain : s.code[base]? = some (.body run)) :
    s.isHookOf id n = true ↔ owners.head? = some id := by
  cases h with
  | base => simp [isHookOf, plain]
  | hook found => simp [isHookOf, found]

end Session

/-! ### Repetitions -/

/-- Asking once more changes nothing if the last one to ask was the same. -/
theorem destutter_cons_ne (id : Nat) (ids : List Nat) :
    (id :: ids).destutter (· ≠ ·) =
      if ids.head? = some id then ids.destutter (· ≠ ·) else id :: ids.destutter (· ≠ ·) := by
  cases ids with
  | nil => rfl
  | cons last rest =>
    rw [List.destutter_cons', List.destutter_cons']
    by_cases h : last = id
    · subst h
      rw [List.destutter'_cons_neg _ (fun hne => hne rfl)]
      simp
    · rw [List.destutter'_cons_pos _ (Ne.symm h)]
      simp [h]

theorem head?_destutter_ne (ids : List Nat) : (ids.destutter (· ≠ ·)).head? = ids.head? := by
  induction ids with
  | nil => rfl
  | cons id ids ih =>
    rw [destutter_cons_ne]
    split
    · rename_i h
      rw [ih, h]
      rfl
    · rfl

namespace Machine

variable {m m' n : Machine} {p id : Nat} {query : String} {ids : List Nat}

/-! ### Histories of an entry -/

/-- At `m` an override is about to be installed where a provider table answers its query. -/
def Installing (p : Nat) (query : String) (id : Nat) (m : Machine) : Prop :=
  ∃ override providers o t,
    m.control = .eval (.perform (.table (.install override providers))) ∧
      m.session.overrideNamed override = .ok (id, o) ∧ o.query = query ∧
        m.session.tableNamed providers = .ok (p, t)

/-- Between `m` and `n` an entry of a provider table is changed only by installations; `ids` are the
overrides that were to be installed, the last one first. -/
inductive InstalledInTurn (p : Nat) (query : String) (m : Machine) : List Nat → Machine → Prop where
  | refl : InstalledInTurn p query m [] m
  | other {ids : List Nat} {n n' : Machine} (before : InstalledInTurn p query m ids n)
    (move : Move n n') (same : n'.session.entry p query = n.session.entry p query) :
    InstalledInTurn p query m ids n'
  | install {ids : List Nat} {n : Machine} {id : Nat} (before : InstalledInTurn p query m ids n)
    (installing : Installing p query id n) : InstalledInTurn p query m (id :: ids) n.step

theorem InstalledInTurn.leads (h : InstalledInTurn p query m ids n) : Leads m n := by
  induction h with
  | refl => exact .refl
  | other _ move _ ih => exact ih.tail move
  | install _ installing ih =>
    obtain ⟨_, _, _, _, control, -⟩ := installing
    exact ih.tail (.step (outcome?_eq_none_of_eval control))

theorem step_install {override providers : String}
    (control : m.control = .eval (.perform (.table (.install override providers)))) :
    m.step = reply m.stack (m.session.changed (m.session.install override providers)) :=
  step_perform control

/-- An override whose own hook is the outermost is refused, and nothing changes. -/
theorem Installing.step_of_own {e : Nat} (h : Installing p query id m)
    (entry : m.session.entry p query = some e) (own : m.session.isHookOf id e = true) :
    m.step = ⟨.raise (.alreadyOverridden query), m.stack, m.session⟩ := by
  obtain ⟨override, providers, o, t, control, ho, rfl, ht⟩ := h
  rw [Session.entry_of_tableNamed ht] at entry
  rw [step_install control, Session.install_of_own ho ht entry own]
  rfl

/-- Any other override is put in front of what it finds. -/
theorem Installing.step_of_other {e : Nat} (h : Installing p query id m)
    (entry : m.session.entry p query = some e) (other : m.session.isHookOf id e = false) :
    ∃ o t, o.query = query ∧ m.session.overrides[id]? = some o ∧
      m.session.providers[p]? = some t ∧
      m.step = ⟨.give .null, m.stack, m.session.installed id o p t e⟩ := by
  obtain ⟨override, providers, o, t, control, ho, rfl, ht⟩ := h
  rw [Session.entry_of_tableNamed ht] at entry
  refine ⟨o, t, rfl, Session.overrides_of_overrideNamed ho, Session.providers_of_tableNamed ht, ?_⟩
  rw [step_install control, Session.install_of_other ho ht entry other]
  rfl

/-- The entry holds the hooks of those who asked in turn, without repetitions. -/
theorem InstalledInTurn.hooked (h : InstalledInTurn p query m ids n) {base : Nat}
    {run : Call → Program} (entry : m.session.entry p query = some base)
    (plain : m.session.code[base]? = some (.body run)) :
    ∃ e, n.session.entry p query = some e ∧
      Hooked n.session.code base e (ids.destutter (· ≠ ·)) := by
  induction h with
  | refl => exact ⟨base, entry, .base⟩
  | other _ move same ih =>
    obtain ⟨e, he, hhooked⟩ := ih
    exact ⟨e, same.trans he, hhooked.extends move.revision.extends⟩
  | @install ids n id before installing ih =>
    obtain ⟨e, he, hhooked⟩ := ih
    have hplain : n.session.code[base]? = some (.body run) := before.leads.extends.code plain
    have howner : n.session.isHookOf id e = true ↔ (ids.destutter (· ≠ ·)).head? = some id :=
      Session.isHookOf_iff hhooked hplain
    rw [head?_destutter_ne] at howner
    rw [destutter_cons_ne]
    by_cases hlast : ids.head? = some id
    · -- the last one to ask was the same, and is refused now
      rw [if_pos hlast, installing.step_of_own he (howner.mpr hlast)]
      exact ⟨e, he, hhooked⟩
    · rw [if_neg hlast]
      have hother : n.session.isHookOf id e = false := by
        rw [← Bool.not_eq_true, howner]
        exact hlast
      obtain ⟨o, t, rfl, -, found, hstep⟩ := installing.step_of_other he hother
      have hextends := (step_revision n).extends
      rw [hstep] at hextends ⊢
      refine ⟨n.session.code.size, ?_, .hook Session.code_installed (hhooked.extends hextends)⟩
      exact (Session.entry_installed found p o.query).trans (if_pos ⟨rfl, rfl⟩)

/-! ### Main statement -/

/-- **Overrides are installed in turn.**  While an entry that has held plain code is changed only by
installations, it holds a chain of hooks around that code, which are those of the overrides that
were to be installed, with repetitions in a row left out.  An override that was the last one to be
installed is refused, and nothing changes.  Any other gets its hook in front of the chain, even if
the chain holds a hook of it, and no other entry changes. -/
theorem installed_in_turn (h : InstalledInTurn p query m ids n) {base : Nat}
    {run : Call → Program} (entry : m.session.entry p query = some base)
    (plain : m.session.code[base]? = some (.body run)) :
    ∃ e, n.session.entry p query = some e ∧
      Hooked n.session.code base e (ids.destutter (· ≠ ·)) ∧
      (ids.destutter (· ≠ ·)).IsChain (· ≠ ·) ∧
      ∀ id, Installing p query id n →
        (ids.head? = some id →
          n.step = ⟨.raise (.alreadyOverridden query), n.stack, n.session⟩ ∧
            (Fault.alreadyOverridden query).kind = .badValue) ∧
        (ids.head? ≠ some id → n.step.control = .give .null ∧ n.step.stack = n.stack ∧
          Hooked n.step.session.code base n.session.code.size (id :: ids.destutter (· ≠ ·)) ∧
          ∀ p' query', n.step.session.entry p' query' =
            if p' = p ∧ query' = query then some n.session.code.size
            else n.session.entry p' query') := by
  obtain ⟨e, he, hhooked⟩ := h.hooked entry plain
  have hplain : n.session.code[base]? = some (.body run) := h.leads.extends.code plain
  refine ⟨e, he, hhooked, List.isChain_destutter .., fun id installing => ?_⟩
  have howner : n.session.isHookOf id e = true ↔ (ids.destutter (· ≠ ·)).head? = some id :=
    Session.isHookOf_iff hhooked hplain
  rw [head?_destutter_ne] at howner
  constructor
  · intro hlast
    exact ⟨installing.step_of_own he (howner.mpr hlast), rfl⟩
  · intro hlast
    have hother : n.session.isHookOf id e = false := by
      rw [← Bool.not_eq_true, howner]
      exact hlast
    obtain ⟨o, t, rfl, -, found, hstep⟩ := installing.step_of_other he hother
    have hextends := (step_revision n).extends
    rw [hstep] at hextends ⊢
    exact ⟨rfl, rfl, .hook Session.code_installed (hhooked.extends hextends),
      Session.entry_installed found⟩

/-- Has two overrides of one query and installs the first, the second and the first again. -/
def installThrice : Program :=
  .andThen (.perform (.create (.providers "p"))) <|
    .store (fun call => .done call.key) fun code =>
      .andThen (.perform (.table (.provide "p" "q" code))) <|
        .andThen (.perform (.create (.override "a" "q" code))) <|
          .andThen (.perform (.create (.override "b" "q" code))) <|
            .andThen (.perform (.table (.install "a" "p"))) <|
              .andThen (.perform (.table (.install "b" "p"))) <|
                .perform (.table (.install "a" "p"))

/-- The machine that is about to install the first override. -/
def installingFirst : Machine := (load installThrice (.start .events [])).run 14

/-- The machine that is about to install the first override again. -/
def installingAgain : Machine := installingFirst.run 5

theorem installedInTurn_again : InstalledInTurn 0 "q" installingFirst [1, 0] installingAgain := by
  have hfirst : Installing 0 "q" 0 installingFirst := ⟨"a", "p", _, _, rfl, rfl, rfl, rfl⟩
  have hsecond : Installing 0 "q" 1 (installingFirst.run 3) := ⟨"b", "p", _, _, rfl, rfl, rfl, rfl⟩
  have h₁ : InstalledInTurn 0 "q" installingFirst [0] (installingFirst.run 1) :=
    .install .refl hfirst
  have h₃ : InstalledInTurn 0 "q" installingFirst [0] (installingFirst.run 3) :=
    .other (.other h₁ (.step rfl) rfl) (.step rfl) rfl
  have h₄ : InstalledInTurn 0 "q" installingFirst [1, 0] (installingFirst.run 4) :=
    .install h₃ hsecond
  exact .other h₄ (.step rfl) rfl

theorem installed_in_turn_again :
    InstalledInTurn 0 "q" installingFirst [1, 0] installingAgain ∧
      installingFirst.session.entry 0 "q" = some 0 ∧
      (∃ run, installingFirst.session.code[0]? = some (.body run)) ∧
      Installing 0 "q" 0 installingAgain ∧ installingAgain.step.control = .give .null := by
  have hinstalling : Installing 0 "q" 0 installingAgain := ⟨"a", "p", _, _, rfl, rfl, rfl, rfl⟩
  obtain ⟨-, -, -, -, hasks⟩ := installed_in_turn installedInTurn_again
    (rfl : installingFirst.session.entry 0 "q" = some 0) rfl
  exact ⟨installedInTurn_again, rfl, ⟨_, rfl⟩, hinstalling, ((hasks 0 hinstalling).2 (by decide)).1⟩

/-- An override that is installed again after another one is not refused, and the provider is
wrapped in its hook twice. -/
theorem wrapped_twice :
    Reachable installingAgain ∧ InstalledInTurn 0 "q" installingFirst [1, 0] installingAgain ∧
      installingFirst.session.entry 0 "q" = some 0 ∧
      (∃ run, installingFirst.session.code[0]? = some (.body run)) ∧
      Installing 0 "q" 0 installingAgain ∧ installingAgain.step.control = .give .null ∧
      ∃ e, installingAgain.step.session.entry 0 "q" = some e ∧
        Hooked installingAgain.step.session.code 0 e [0, 1, 0] :=
  ⟨((Reachable.start ..).leads (leads_run ..)).leads (leads_run ..), installedInTurn_again, rfl,
    ⟨_, rfl⟩, ⟨"a", "p", _, _, rfl, rfl, rfl, rfl⟩, rfl, 3, rfl,
    .hook rfl (.hook rfl (.hook rfl .base))⟩

end Machine

end CheckedMemo
