import CheckedMemo.Proofs.Change

/-!
# Containers along a session

Addresses are given out in order and never taken back, so a container that is there stays there and
stays of its sort.  Its contents change only by a command to append to it or to replace an item of
it (`Command.changed`): every other step leaves all containers as they are, and adds at most one
(`step_memory`).  A copy of a list or dictionary is such a new one (`copy_of_holds`).
-/

namespace CheckedMemo

/-! ### Memory -/

/-- Whether two containers are both lists, both dictionaries or both objects. -/
def Container.SameSort : Container → Container → Prop
  | .list _, .list _ | .dict _, .dict _ | .object .., .object .. => True
  | _, _ => False

namespace Container.SameSort

theorem refl (c : Container) : c.SameSort c := by
  cases c <;> trivial

theorem trans {c c' c'' : Container} (h : c.SameSort c') (h' : c'.SameSort c'') :
    c.SameSort c'' := by
  cases c <;> cases c' <;> cases c'' <;> trivial

theorem push (item : Value) (c : Container) : c.SameSort (c.push item) := by
  cases c <;> trivial

end Container.SameSort

/-- Where the contents of a list, a dictionary or an object are kept. -/
def Value.address? : Value → Option Nat
  | .list a | .dict a | .object a => some a
  | _ => none

namespace Memory

/-- The address of the container that a command is to change, if it is one to change any. -/
def Command.changed : Memory.Command → Set Nat
  | .append (.list a) _ | .put (.list a) _ _ | .put (.dict a) _ _ => {a}
  | _ => ∅

/-- Whether all containers of `m` are still there in `n`, each of its sort, and with its contents
unless its address is one of `changed`. -/
def Preserves (changed : Set Nat) (m n : Memory) : Prop :=
  ∀ a c, m.contents? a = some c →
    ∃ c', n.contents? a = some c' ∧ c.SameSort c' ∧ (a ∉ changed → c' = c)

namespace Preserves

variable {changed changed' : Set Nat} {m n : Memory}

theorem of_heap (h : n.heap = m.heap) : Preserves changed m n := by
  intro a c hc
  refine ⟨c, ?_, .refl c, fun _ => rfl⟩
  rw [contents?, h]
  exact hc

theorem refl (m : Memory) : Preserves changed m m := of_heap rfl

theorem of_eq (h : n = m) : Preserves changed m n := of_heap (congrArg heap h)

theorem trans {o : Memory} (h : Preserves changed m n) (h' : Preserves changed n o) :
    Preserves changed m o := by
  intro a c hc
  obtain ⟨c', hc', hsort, hsame⟩ := h a c hc
  obtain ⟨c'', hc'', hsort', hsame'⟩ := h' a c' hc'
  exact ⟨c'', hc'', hsort.trans hsort', fun ha => (hsame' ha).trans (hsame ha)⟩

theorem mono (h : Preserves changed m n) (hsub : changed ⊆ changed') :
    Preserves changed' m n := by
  intro a c hc
  obtain ⟨c', hc', hsort, hsame⟩ := h a c hc
  exact ⟨c', hc', hsort, fun ha => hsame fun ha' => ha (hsub ha')⟩

theorem of_allocate (m : Memory) (c : Container) : Preserves changed m (m.allocate c).2 := by
  intro a c₀ hc₀
  obtain ⟨ha, -⟩ := Array.getElem?_eq_some_iff.mp hc₀
  exact ⟨c₀, (m.contents?_allocate c ha).trans hc₀, .refl c₀, fun _ => rfl⟩

theorem of_modify {a : Nat} {f : Container → Container}
    (hf : ∀ c, m.contents? a = some c → c.SameSort (f c)) :
    Preserves {a} m (m.modify a f) := by
  intro b c hc
  rw [contents?_modify]
  split
  · rename_i hab
    subst hab
    exact ⟨f c, by rw [hc]; rfl, hf c hc, fun hne => absurd (Set.mem_singleton a) hne⟩
  · exact ⟨c, hc, .refl c, fun _ => rfl⟩

/-- An address that is not in use has not been in use before. -/
theorem unused (h : Preserves changed m n) {a : Nat} (ha : n.contents? a = none) :
    m.contents? a = none := by
  cases hc : m.contents? a with
  | none => rfl
  | some c =>
    obtain ⟨c', hc', -⟩ := h a c hc
    cases hc'.symm.trans ha

end Preserves

variable {m n : Memory}

/-- What `put` makes of a container is of the same sort. -/
theorem sameSort_of_replacement {a : Nat} {index value : Value} {f : Container → Container}
    (h : m.replacement a index value = .ok f) {c : Container} (hc : m.contents? a = some c) :
    c.SameSort (f c) := by
  unfold replacement at h
  rw [hc] at h
  cases c with
  | list items =>
    obtain ⟨n, -, h⟩ := exists_of_bind_eq_ok h
    cases h
    trivial
  | dict d =>
    obtain ⟨d', -, h⟩ := exists_of_bind_eq_ok h
    cases h
    trivial
  | object => cases h

theorem preserves_put (m : Memory) (a : Nat) (container index value : Value)
    (hc : container = .list a ∨ container = .dict a) :
    Preserves {a} m (m.put container index value).2 := by
  cases hr : m.replacement a index value with
  | ok f =>
    have hput : m.put container index value = (.ok .null, m.modify a f) := by
      rcases hc with rfl | rfl <;> simp only [put, hr]
    rw [hput]
    exact .of_modify fun c hc => sameSort_of_replacement hr hc
  | error e =>
    have hput : m.put container index value = (.error e, m) := by
      rcases hc with rfl | rfl <;> simp only [put, hr]
    rw [hput]
    exact .refl m

/-- A command on memory changes the container that it is to change, and no other. -/
theorem preserves_run (m : Memory) (c : Memory.Command) :
    Preserves c.changed m (m.run c).2 := by
  cases c with
  | newList items => exact .of_allocate m _
  | newObject payload copier => exact .of_allocate m _
  | newNotANumber => exact .of_heap rfl
  | assign | item | same | equal => exact .of_heap rfl
  | newTuple items =>
    rw [run, newTuple]
    split <;> exact .of_heap rfl
  | newDict entries =>
    rw [run]
    split
    · exact .of_allocate m _
    · exact .of_heap rfl
  | lookup name =>
    rw [run]
    split <;> exact .of_heap rfl
  | append list item =>
    cases list with
    | list a => exact .of_modify fun c _ => .push item c
    | _ => exact .of_heap rfl
  | put container index value =>
    cases container with
    | list a => exact m.preserves_put a _ _ _ (.inl rfl)
    | dict a => exact m.preserves_put a _ _ _ (.inr rfl)
    | _ => exact .of_heap rfl

/-- Whether a value is a list or a dictionary that has these contents. -/
inductive Holds (m : Memory) : Value → Container → Prop where
  | list {a : Nat} {items : Array Value} (h : m.contents? a = some (.list items)) :
    Holds m (.list a) (.list items)
  | dict {a : Nat} {entries : Dict} (h : m.contents? a = some (.dict entries)) :
    Holds m (.dict a) (.dict entries)

namespace Holds

variable {v w : Value} {c : Container}

theorem exists_address (h : m.Holds v c) :
    ∃ a, v.address? = some a ∧ m.contents? a = some c := by
  cases h with
  | list h | dict h => exact ⟨_, rfl, h⟩

theorem unique {c' : Container} (h : m.Holds v c) (h' : m.Holds v c') : c = c' := by
  obtain ⟨a, ha, hc⟩ := h.exists_address
  obtain ⟨a', ha', hc'⟩ := h'.exists_address
  obtain rfl : a = a' := Option.some.inj (ha.symm.trans ha')
  exact Option.some.inj (hc.symm.trans hc')

/-- A list or dictionary keeps its contents as long as it is not the one that is changed. -/
theorem preserved {changed : Set Nat} (h : m.Holds v c) (hmn : Preserves changed m n)
    (hne : ∀ a, v.address? = some a → a ∉ changed) : n.Holds v c := by
  cases h with
  | @list a items h =>
    obtain ⟨c', hc', -, hsame⟩ := hmn a _ h
    rw [hsame (hne a rfl)] at hc'
    exact .list hc'
  | @dict a entries h =>
    obtain ⟨c', hc', -, hsame⟩ := hmn a _ h
    rw [hsame (hne a rfl)] at hc'
    exact .dict hc'

/-- What has been a list or dictionary before had some contents then. -/
theorem before {changed : Set Nat} (h : n.Holds v c) (hmn : Preserves changed m n) {a : Nat}
    (hv : v.address? = some a) {c₀ : Container} (hc₀ : m.contents? a = some c₀) :
    m.Holds v c₀ := by
  obtain ⟨c', hc', hsort, -⟩ := hmn a c₀ hc₀
  cases h with
  | list h | dict h =>
    cases hv
    obtain rfl := Option.some.inj (h.symm.trans hc')
    cases c₀ with
    | list => first | exact .list hc₀ | exact hsort.elim
    | dict => first | exact .dict hc₀ | exact hsort.elim
    | object => exact hsort.elim

end Holds

end Memory

/-! ### Sessions -/

/-- The address of the container that a command is to change, if it is one to change any. -/
def Command.changed : Command → Set Nat
  | .memory c => c.changed
  | _ => ∅

namespace Session

open Memory (Preserves)

variable {s t : Session} {changed : Set Nat}

theorem memory_release (s : Session) (id : Nat) (mode : Mode) :
    (s.release id mode).memory = s.memory := by
  obtain ⟨_, h⟩ := s.release_eq id mode
  rw [h]

theorem memory_create (s : Session) (c : Creation) : (s.create c).memory = s.memory := by
  cases c <;> rfl

theorem memory_locate {target : Target} {place : Place} (h : s.locate target = .ok (place, t)) :
    t.memory = s.memory := by
  rcases locate_eq_ok h with ⟨rfl, -⟩ | ⟨id, hid⟩
  · rfl
  · obtain ⟨c, -, -, ⟨-, rfl⟩ | ⟨-, -, rfl⟩⟩ := locateConfined_eq_ok hid <;> rfl

theorem preserves_inspect (s : Session) (i : Inspection) :
    Preserves changed s.memory (s.inspect i).2.memory := by
  rcases s.inspect_cases i with h | ⟨_, h⟩
  · rw [h]
    exact .refl _
  · rw [h]
    exact .of_allocate s.memory _

theorem preserves_table (s : Session) (c : TableCommand) :
    Preserves changed s.memory (s.table c).2.memory := by
  rcases s.table_cases c with ⟨_, _, h⟩ | ⟨_, h⟩ | ⟨_, _, _, _, _, -, h⟩
  · rw [h]
    exact .refl _
  · rw [h]
    exact .of_allocate s.memory _
  · rw [h]
    exact .refl _

theorem preserves_settings (s : Session) (c : SettingsCommand) :
    Preserves changed s.memory (s.settings c).2.memory := by
  rcases s.settings_cases c with ⟨_, _, h⟩ | ⟨u, h⟩ | ⟨_, -, h⟩
  · rw [h]
    exact .refl _
  · obtain ⟨entries, hu⟩ := s.settingsValue_eq u
    rw [h, hu]
    exact (s.memory.preserves_run (.newDict entries)).mono (Set.empty_subset _)
  · rw [h]
    exact .refl _

/-- A command changes no container but the one that it is to change. -/
theorem preserves_perform (s : Session) (c : Command) :
    Preserves c.changed s.memory (s.perform c).2.memory := by
  cases c with
  | memory c => exact s.memory.preserves_run c
  | inspect i => exact s.preserves_inspect i
  | view c =>
    obtain ⟨_, _, h⟩ := s.view_eq c
    rw [perform, h]
    exact .refl _
  | create c => exact .of_eq (s.memory_create c)
  | table c => exact s.preserves_table c
  | settings c => exact s.preserves_settings c
  | spell v => exact .refl _
  | mark v =>
    obtain ⟨_, h⟩ := s.mark_eq v
    rw [perform, h]
    exact .refl _

end Session

/-! ### Machines -/

namespace Machine

open Memory (Preserves)

variable {m m' : Machine} (stack : List Frame) (s : Session)

/-- The address of the container that is about to be changed, if any. -/
def changed (m : Machine) : Set Nat :=
  match m.control with
  | .eval (.perform c) => c.changed
  | _ => ∅

theorem memory_refuse (f : Fault) : (refuse f stack s).session.memory = s.memory := by
  obtain ⟨_, _, h⟩ := session_refuse_eq stack s f
  rw [h]

theorem memory_reply (r : Except Fault Value × Session) :
    (reply stack r).session.memory = r.2.memory := by
  obtain ⟨_, h⟩ := session_reply_eq stack r
  rw [h]

theorem memory_get (id : Nat) (key : Value) (compute : Value → Program) :
    (get id key compute stack s).session.memory = s.memory := by
  obtain ⟨_, _, h⟩ := session_get_eq stack s id key compute
  rw [h]

theorem preserves_copy {F : Set Nat} (v : Value) :
    Preserves F s.memory (copy v stack s).session.memory := by
  rcases session_copy_cases stack s v with h | ⟨c, h⟩
  · rw [h]
    exact .refl _
  · rw [h]
    exact .of_allocate s.memory c

theorem preserves_begin (p : Program) :
    Preserves (Machine.changed ⟨.eval p, stack, s⟩) s.memory (begin p stack s).session.memory := by
  have same {n : Machine} (h : n.session.memory = s.memory) :
      Preserves (Machine.changed ⟨.eval p, stack, s⟩) s.memory n.session.memory := .of_eq h
  cases p with
  | done | fail | bind | attempt | on | store => exact same rfl
  | perform c =>
    rw [begin, memory_reply]
    exact s.preserves_perform c
  | copy v => exact preserves_copy stack s v
  | get place key compute => exact same (memory_get ..)
  | peek place key =>
    obtain ⟨_, _, h⟩ := session_peek_eq stack s place.id key
    rw [begin, h]
    exact .refl _
  | timed label enabled body =>
    rw [begin, time]
    split
    · exact same (memory_refuse ..)
    · exact same rfl
    · exact same rfl
  | view place mode key body =>
    rw [begin, openView]
    split
    · exact same (memory_refuse ..)
    · rename_i ho
      obtain ⟨r, -, -, rfl⟩ := Session.openView_eq_ok ho
      exact same rfl
  | invoke code call =>
    rw [begin, invoke]
    split
    · exact same rfl
    · split
      · exact same rfl
      · exact same (memory_refuse ..)
    · exact same (memory_refuse ..)
  | reach target next =>
    rw [begin]
    split
    · rename_i hlocate
      exact same (Session.memory_locate hlocate)
    · exact same (memory_refuse ..)
  | locate | resolve | fetch =>
    rw [begin]
    split
    · exact same rfl
    · exact same (memory_refuse ..)

/-- A step leaves all containers as they are but the one that it is to change. -/
theorem step_memory (m : Machine) :
    Preserves m.changed m.session.memory m.step.session.memory := by
  obtain ⟨control, stack, s⟩ := m
  cases control with
  | eval p => exact preserves_begin stack s p
  | give v =>
    cases stack with
    | nil => exact .refl _
    | cons frame rest =>
      obtain ⟨_, _, _, h⟩ := session_resume_eq rest s v frame
      rw [step, h]
      exact .refl _
  | raise f =>
    cases stack with
    | nil => exact .refl _
    | cons frame rest =>
      obtain ⟨_, _, _, h⟩ := session_unwind_eq rest s f frame
      rw [step, h]
      exact .refl _

theorem Move.memory (h : Move m m') :
    Preserves m.changed m.session.memory m'.session.memory := by
  cases h with
  | step => exact step_memory m
  | next => exact .refl _

/-- A container is never given up and stays of its sort. -/
theorem Leads.memory (h : Leads m m') :
    Preserves Set.univ m.session.memory m'.session.memory := by
  induction h with
  | refl => exact .refl _
  | tail _ hmove ih => exact ih.trans (hmove.memory.mono (Set.subset_univ _))

/-- Where no container is, there is nothing to copy. -/
theorem copy_of_unused {v : Value} {a : Nat} (hv : v.address? = some a)
    (ha : s.memory.contents? a = none) : copy v stack s = ⟨.give v, stack, s⟩ := by
  unfold copy
  cases v with
  | list | dict | object =>
    cases hv
    dsimp only
    rw [ha]
  | _ => cases hv

/-- **A copy is new.**  Copying a list or dictionary makes another one with the same contents, at an
address that was not in use. -/
theorem copy_of_holds {v : Value} {c : Container} (h : s.memory.Holds v c) :
    ∃ w memory, copy v stack s = ⟨.give w, stack, { s with memory }⟩ ∧ memory.Holds w c ∧
      ∃ a, w.address? = some a ∧ s.memory.contents? a = none := by
  have fresh (c : Container) := s.memory.contents?_allocate_self c
  cases h with
  | @list a items hitems =>
    have hcopy : copy (.list a) stack s = ⟨.give (s.memory.newList items.toList).1, stack,
        { s with memory := (s.memory.newList items.toList).2 }⟩ := by
      unfold copy
      dsimp only
      rw [hitems]
    obtain ⟨hunused, hcontents⟩ := fresh (.list items)
    exact ⟨_, _, hcopy, .list hcontents, _, rfl, hunused⟩
  | @dict a entries hentries =>
    have hcopy : copy (.dict a) stack s = ⟨.give (s.memory.newDict entries).1, stack,
        { s with memory := (s.memory.newDict entries).2 }⟩ := by
      unfold copy
      dsimp only
      rw [hentries]
    obtain ⟨hunused, hcontents⟩ := fresh (.dict entries)
    exact ⟨_, _, hcopy, .dict hcontents, _, rfl, hunused⟩

end Machine

end CheckedMemo
