import CheckedMemo.Proofs.KeyEquality
import CheckedMemo.Proofs.Paths
import CheckedMemo.Proofs.WriteOnlyJournal
import Mathlib.Data.List.Forall2

/-!
# The same but for the spelling of keys

Messages and log events show a key as it was spelled in the request.  Faults, events and whole
sessions respell one another if they are the same but for keys that are equal and may be spelled
differently (`Fault.Respells`, `Event.Respells`, `Session.Respells`).

One program echoes another if, wherever both are started, it comes to the same end as the other
one, but for spelling (`Program.Echoes`); the sessions may have been told differently before, since
nothing looks at that again (`Program.echoes_iff`).
-/

namespace CheckedMemo

/-! ### Faults and events -/

/-- Whether two keys as they are shown are the same, or equal as keys. -/
inductive Spelled.Respells : Spelled → Spelled → Prop where
  | same (key : Spelled) : Respells key key
  | equal {key key' : Spelled} (h : key.value.KeyEqual key'.value) : Respells key key'

/-- Whether two faults are the same but for how the key of the request is spelled. -/
inductive Fault.Respells : Fault → Fault → Prop where
  | same (f : Fault) : Respells f f
  | conflict (label : Label) (mode : Mode) (active : Active) {key key' : Spelled}
    (h : key.Respells key') :
    Respells (.conflict label mode active key) (.conflict label mode active key')
  | reentrant (label : Label) {key key' : Spelled} (h : key.Respells key') :
    Respells (.reentrant label key) (.reentrant label key')
  | busy (label : Label) {key key' : Spelled} (h : key.Respells key') :
    Respells (.busy label key) (.busy label key')
  | notPopulated (label : Label) (hint : Option String) {key key' : Spelled}
    (h : key.Respells key') :
    Respells (.notPopulated label hint key) (.notPopulated label hint key')
  | absent (label : Label) {key key' : Spelled} (h : key.Respells key') :
    Respells (.absent label key) (.absent label key')

/-- A fault is of the same kind, and reports the same operation, however the key is spelled. -/
theorem Fault.Respells.kind_eq {f g : Fault} (h : f.Respells g) :
    f.kind = g.kind ∧ f.operation? = g.operation? := by
  cases h <;> exact ⟨rfl, rfl⟩

/-- Whether two events are the same but for how the key that they tell of is spelled. -/
inductive Event.Respells : Event → Event → Prop where
  | same (e : Event) : Respells e e
  | cacheMiss (label : Label) {key key' : Spelled} (h : key.Respells key') :
    Respells (.cacheMiss label key) (.cacheMiss label key')
  | usageFault (part subject : String) (label : Label) (operation : String) {key key' : Spelled}
    (h : key.Respells key') :
    Respells (.usageFault part subject label operation key)
      (.usageFault part subject label operation key')

/-- Faults that respell each other are logged by events that do. -/
theorem Fault.Respells.event? {f g : Fault} (h : f.Respells g) :
    Option.Rel Event.Respells f.event? g.event? := by
  cases h with
  | same f =>
    cases f.event? with
    | none => exact .none
    | some e => exact .some (.same e)
  | conflict label mode active h => exact .some (.usageFault _ _ _ _ h)
  | reentrant label h | busy label h => exact .some (.usageFault _ _ _ _ h)
  | notPopulated label hint h => exact .some (.usageFault _ _ _ _ h)
  | absent => exact .none

/-- Whether two entries of a journal are the same but for how keys are spelled. -/
inductive Entry.Respells : Entry → Entry → Prop where
  | same (entry : Entry) : Respells entry entry
  | event {e e' : Event} (h : e.Respells e') (sink : Sink) :
    Respells (.event e sink) (.event e' sink)

/-! ### Results -/

/-- Whether two results are related, or faults that respell each other. -/
inductive Outcome.Respells {α : Type} (R : α → α → Prop) : Except Fault α → Except Fault α → Prop
  | ok {a b : α} (h : R a b) : Respells R (.ok a) (.ok b)
  | error {f g : Fault} (h : f.Respells g) : Respells R (.error f) (.error g)

namespace Outcome.Respells

variable {α β : Type} {R : α → α → Prop} {S : β → β → Prop} {x y : Except Fault α}

theorem refl (x : Except Fault α) : Respells Eq x x := by
  cases x with
  | ok a => exact .ok rfl
  | error f => exact .error (.same f)

/-- What goes on alike from related results gives related results. -/
theorem bind {f g : α → Except Fault β} (h : Respells R x y)
    (hfg : ∀ a b, R a b → Respells S (f a) (g b)) : Respells S (x >>= f) (y >>= g) := by
  cases h with
  | ok h => exact hfg _ _ h
  | error h => exact .error h

/-- What goes on alike from the same result gives related results. -/
theorem bind_eq {f g : α → Except Fault β} (h : Respells Eq x y)
    (hfg : ∀ a, Respells S (f a) (g a)) : Respells S (x >>= f) (y >>= g) := by
  refine h.bind ?_
  rintro a _ rfl
  exact hfg a

end Outcome.Respells

/-! ### Sessions -/

/-- Whether two sessions are the same but for how keys are spelled in their journals. -/
structure Session.Respells (s t : Session) : Prop where
  eq : t = { s with journal := t.journal }
  journal : List.Forall₂ Entry.Respells s.journal.toList t.journal.toList

namespace Session.Respells

variable {s t : Session}

theorem refl (s : Session) : s.Respells s := ⟨rfl, List.forall₂_same.mpr fun entry _ => .same entry⟩

theorem resources_eq (h : s.Respells t) : t.resources = s.resources := by rw [h.eq]

theorem setResource (h : s.Respells t) (id : Nat) (r : Resource) :
    (s.setResource id r).Respells (t.setResource id r) := by
  refine ⟨?_, h.journal⟩
  rw [h.eq]
  rfl

theorem release (h : s.Respells t) (id : Nat) (mode : Mode) :
    (s.release id mode).Respells (t.release id mode) := by
  unfold Session.release
  rw [h.resources_eq]
  split
  · exact h.setResource id _
  · exact h

theorem log {e e' : Event} (h : s.Respells t) (he : e.Respells e') :
    (s.log e).Respells (t.log e') := by
  have hsink : t.sink = s.sink := by rw [h.eq]
  constructor
  · rw [h.eq]
    rfl
  · show List.Forall₂ _ (s.journal.push _).toList (t.journal.push _).toList
    rw [Array.toList_push, Array.toList_push, hsink]
    exact List.rel_append h.journal (.cons (.event he s.sink) .nil)

theorem report {f g : Fault} (h : s.Respells t) (hfg : f.Respells g) :
    (s.report f).Respells (t.report g) := by
  have hevents := hfg.event?
  unfold Session.report
  generalize f.event? = o at hevents ⊢
  generalize g.event? = o' at hevents ⊢
  cases hevents with
  | none => exact h
  | some he => exact h.log he

theorem foldl_report {fs gs : List Fault} (h : s.Respells t)
    (hfg : List.Forall₂ Fault.Respells fs gs) :
    (fs.foldl Session.report s).Respells (gs.foldl Session.report t) := by
  induction hfg generalizing s t with
  | nil => exact h
  | cons hf _ ih => exact ih (h.report hf)

end Session.Respells

/-! ### Ends -/

/-- Whether two controls give the same value, or raise faults that respell each other. -/
inductive Control.Respells : Control → Control → Prop where
  | give (v : Value) : Respells (.give v) (.give v)
  | raise {f g : Fault} (h : f.Respells g) : Respells (.raise f) (.raise g)

theorem Control.Respells.refl {c : Control} (h : c.isOutcome = true) : c.Respells c := by
  cases c with
  | eval p => cases h
  | give v => exact .give v
  | raise f => exact .raise (.same f)

namespace Machine

/-- Whether two programs have come to the same end but for how keys are spelled. -/
structure Respells (m n : Machine) : Prop where
  control : m.control.Respells n.control
  session : m.session.Respells n.session

/-- Whatever the program that `m` is about to run comes to, the one of `n` comes to the same but for
how keys are spelled. -/
def Echoes (base base' : List Frame) (m n : Machine) : Prop :=
  ∀ m', Ends base m m' → ∃ n', Ends base' n n' ∧ m'.Respells n'

end Machine

namespace Program

variable {p q : Program}

/-- Whether one program comes to whatever another one does, but for how keys are spelled: from any
session, with keys spelled the same or differently in its journal, and on top of any frames. -/
def Echoes (p q : Program) : Prop :=
  ∀ s t : Session, s.Respells t → ∀ base base' : List Frame,
    Machine.Echoes base base' ⟨.eval p, base, s⟩ ⟨.eval q, base', t⟩

/-- Whether two programs do the same but for how keys are spelled. -/
def Alike (p q : Program) : Prop := p.Echoes q ∧ q.Echoes p

/-- It is enough to compare the programs by themselves, from the same session. -/
theorem echoes_iff :
    p.Echoes q ↔ ∀ s, Machine.Echoes [] [] (.load p s) (.load q s) := by
  refine ⟨fun h s => h s s (.refl s) [] [], fun h s t hst base base' m' hm' => ?_⟩
  -- both sessions are the one without a journal, after what they have noted so far
  have hs : (⟨.eval p, base, s⟩ : Machine) =
      (Machine.load p { s with journal := #[] }).placed s.journal base := by
    rw [Machine.placed, Session.after]
    simp [Machine.load]
  have ht : (⟨.eval q, base', t⟩ : Machine) =
      (Machine.load q { s with journal := #[] }).placed t.journal base' := by
    rw [hst.eq, Machine.placed, Session.after]
    simp [Machine.load]
  rw [hs] at hm'
  obtain ⟨m₀, hm₀, rfl⟩ := Machine.ends_placed_iff.mp hm'
  obtain ⟨n₀, hn₀, hcontrol, hsession⟩ := h _ m₀ hm₀
  refine ⟨n₀.placed t.journal base', ht ▸ hn₀.placed, hcontrol, ?_, ?_⟩
  · show n₀.session.after t.journal = _
    rw [hsession.eq]
    rfl
  · show List.Forall₂ _ (s.journal ++ m₀.session.journal).toList
      (t.journal ++ n₀.session.journal).toList
    rw [Array.toList_append, Array.toList_append]
    exact List.rel_append hst.journal hsession.journal

theorem Echoes.refl (p : Program) : p.Echoes p := by
  refine echoes_iff.mpr fun s m' hm' => ⟨m', hm', .refl hm'.isOutcome, .refl _⟩

theorem Alike.refl (p : Program) : p.Alike p := ⟨.refl p, .refl p⟩

end Program

/-! ### Programs that echo each other step by step -/

namespace Machine.Echoes

variable {base base' : List Frame} {m n : Machine} {s t : Session} {p q : Program}

/-- The programs are over. -/
theorem here {c c' : Control} (hc : c.Respells c') (h : s.Respells t) :
    Echoes base base' ⟨c, base, s⟩ ⟨c', base', t⟩ := by
  have houtcome : c.isOutcome = true ∧ c'.isOutcome = true := by cases hc <;> exact ⟨rfl, rfl⟩
  intro m' hm'
  obtain rfl := hm'.unique (.here rfl houtcome.1)
  exact ⟨_, .here rfl houtcome.2, hc, h⟩

theorem refuse {f g : Fault} (hfg : f.Respells g) (h : s.Respells t) :
    Echoes base base' (Machine.refuse f base s) (Machine.refuse g base' t) :=
  here (.raise hfg) (h.report hfg)

theorem reply {x y : Except Fault Value} (hxy : Outcome.Respells Eq x y) (h : s.Respells t) :
    Echoes base base' (Machine.reply base (x, s)) (Machine.reply base' (y, t)) := by
  cases hxy with
  | ok heq =>
    subst heq
    exact here (.give _) h
  | error hfg => exact refuse hfg h

/-- The programs take a step. -/
theorem step (h : Echoes base base' m.step n.step)
    (hm : ¬(m.stack = base ∧ m.control.isOutcome = true))
    (hn : ¬(n.stack = base' ∧ n.control.isOutcome = true)) : Echoes base base' m n := by
  intro m' hm'
  cases hm' with
  | here hs hc => exact absurd ⟨hs, hc⟩ hm
  | step _ rest =>
    obtain ⟨n', hn', hr⟩ := h m' rest
    exact ⟨n', .step hn hn', hr⟩

theorem eval (h : Echoes base base' (begin p base s) (begin q base' t)) :
    Echoes base base' ⟨.eval p, base, s⟩ ⟨.eval q, base', t⟩ :=
  step h (not_ended_of_eval rfl) (not_ended_of_eval rfl)

/-- The outcomes of programs are taken to frames. -/
theorem frame {frame frame' : Frame}
    (h : Echoes (frame :: base) (frame' :: base') m n)
    (hm : frame :: base <:+ m.stack) (hn : frame' :: base' <:+ n.stack)
    (next : ∀ m₁ n₁ : Machine, m₁.stack = frame :: base → n₁.stack = frame' :: base' →
      m₁.Respells n₁ → Echoes base base' m₁.step n₁.step) : Echoes base base' m n := by
  intro m' hm'
  obtain ⟨m₁, hm₁, hrest⟩ := hm'.split hm
  obtain ⟨n₁, hn₁, hr⟩ := h m₁ hm₁
  obtain ⟨n', hn', hr'⟩ := next m₁ n₁ hm₁.stack_eq hn₁.stack_eq hr m' hrest
  have hne : ¬(n₁.stack = base' ∧ n₁.control.isOutcome = true) := by
    rintro ⟨hs, -⟩
    rw [hn₁.stack_eq] at hs
    exact List.cons_ne_self frame' base' hs
  have hpath : Path (fun _ => True) base' n n₁ := hn₁.path.lower (List.suffix_cons ..) hn
  exact ⟨n', hpath.ends_iff.mpr (.step hne hn'), hr'⟩

/-- Programs that echo each other are run on top of frames. -/
theorem under {frame frame' : Frame} (h : p.Echoes q) (hst : s.Respells t)
    (next : ∀ m₁ n₁ : Machine, m₁.stack = frame :: base → n₁.stack = frame' :: base' →
      m₁.Respells n₁ → Echoes base base' m₁.step n₁.step) :
    Echoes base base' ⟨.eval p, frame :: base, s⟩ ⟨.eval q, frame' :: base', t⟩ :=
  .frame (h s t hst _ _) List.suffix_rfl List.suffix_rfl next

end Machine.Echoes

end CheckedMemo
