import CheckedMemo.Proofs.Complaints

/-!
# Faults tell the truth

A complaint that a program meets, however many frames it has crossed on its way, goes back to a
request that was refused: it reports the key and the operation of that request, names the cell or
cache that refused it, and if views were in the way it says which.  The refusal was logged, and no
other refusal has been logged since.

The request is one that a program makes in a step of its own (`Denies`), or one that a stable cache
makes when a computation ends while views of it are active; its key is then the one that the cache
had been asked for (`Reachable.calledFor`).  Every later step either takes the same complaint across
a frame, which logs no warning, or starts on a complaint of its own (`step_complaint`).
-/

namespace CheckedMemo

/-- Whether a message contains a text. -/
def Mentions (message part : String) : Prop := ∃ before after, message = before ++ part ++ after

namespace Mentions

variable {message part : String}

theorem here (part after : String) : Mentions (part ++ after) part :=
  ⟨"", after, by rw [String.empty_append]⟩

theorem later (text : String) (h : Mentions message part) : Mentions (text ++ message) part := by
  obtain ⟨before, after, rfl⟩ := h
  exact ⟨text ++ before, after, by simp only [String.append_assoc]⟩

end Mentions

/-! ### Warnings -/

/-- Whether an event warns of a broken contract. -/
def Event.warns (e : Event) : Bool := e.name = "usage_fault" && e.level = .warning

/-- The warning of a broken contract that an entry of the journal is, if it is one. -/
def Entry.warning? : Entry → Option Event
  | .event e _ => if e.warns then some e else none
  | .mark _ => none

namespace Session

variable {s : Session}

/-- The last warning of a broken contract in the journal. -/
def lastWarning? (s : Session) : Option Event := s.journal.toList.reverse.findSome? Entry.warning?

end Session

/-! ### What a fault says -/

/-- The part of the library that refuses an operation, and the field of its warnings that holds the
label: views are refused by cells, computations by caches, and retrievals by scoped caches. -/
inductive Refuser : String → String → String → Prop where
  | cell (mode : Mode) : Refuser mode.name "cell" "cell"
  | cache : Refuser "get" "cache" "cache"
  | «scoped» : Refuser "retrieve" "scoped" "cache"

/-- Whether an event is the warning of a refused request: its fields hold the label of the cell or
cache that refused it, the operation, and the text of the key. -/
def Event.WarnsOf (e : Event) (label : Label) (operation : String) (shown : Spelled) : Prop :=
  ∃ part subject, Refuser operation part subject ∧ e =
    { logger := "pinned_memo." ++ part
      level := .warning
      name := "usage_fault"
      fields := [(subject, .label label), ("operation", .text operation),
        ("key", .text shown.text)] }

/-- What a fault says of the request that was refused, in its fields, in its message and in the log.
-/
structure Fault.Tells (f : Fault) (label : Label) (shown : Spelled) (operation : String) :
    Prop where
  key : f.key? = some shown.value
  operation_eq : f.operation? = some operation
  mentions_label : Mentions f.message label.text
  mentions_key : Mentions f.message shown.text
  event : ∃ e, f.event? = some e ∧ e.WarnsOf label operation shown

namespace Fault

variable (label : Label) (shown : Spelled)

theorem message_conflict (mode : Mode) (active : Active) :
    (conflict label mode active shown).message =
      label.text ++ (": cannot acquire " ++ (mode.name ++ (" view for key " ++ (shown.text ++
        ("; " ++ (active.describe ++ " view already active")))))) := by
  show s!"{label.text}: cannot acquire {mode.name} view for key {shown.text}; " ++
    s!"{active.describe} view already active" = _
  simp only [toString, String.append_assoc]

theorem message_reentrant : (reentrant label shown).message =
    label.text ++ (": compute for key " ++ (shown.text ++ " re-entered get for the same key")) := by
  show s!"{label.text}: compute for key {shown.text} re-entered get for the same key" = _
  simp only [toString, String.append_assoc]

theorem message_busy : (busy label shown).message =
    label.text ++ (": key " ++ (shown.text ++ " is being computed on another thread")) := by
  show s!"{label.text}: key {shown.text} is being computed on another thread" = _
  simp only [toString, String.append_assoc]

theorem message_notPopulated (hint : Option String) : (notPopulated label hint shown).message =
    label.text ++ (": key " ++ (shown.text ++ (" was retrieved before it was populated" ++
      hint.elim "" fun more => ". " ++ more))) := by
  cases hint with
  | none =>
    show s!"{label.text}: key {shown.text} was retrieved before it was populated" = _
    simp only [toString, String.append_assoc, Option.elim_none, String.append_empty]
  | some more =>
    let base := s!"{label.text}: key {shown.text} was retrieved before it was populated"
    show s!"{base}. {more}" = _
    simp only [base, toString, String.append_assoc, Option.elim_some]

theorem tells_conflict (mode : Mode) (active : Active) :
    (conflict label mode active shown).Tells label shown mode.name where
  key := rfl
  operation_eq := rfl
  mentions_label := by
    rw [message_conflict]
    exact .here ..
  mentions_key := by
    rw [message_conflict]
    exact .later _ (.later _ (.later _ (.later _ (.here ..))))
  event := ⟨_, rfl, _, _, .cell mode, rfl⟩

theorem tells_reentrant : (reentrant label shown).Tells label shown "get" where
  key := rfl
  operation_eq := rfl
  mentions_label := by
    rw [message_reentrant]
    exact .here ..
  mentions_key := by
    rw [message_reentrant]
    exact .later _ (.later _ (.here ..))
  event := ⟨_, rfl, _, _, .cache, rfl⟩

theorem tells_busy : (busy label shown).Tells label shown "get" where
  key := rfl
  operation_eq := rfl
  mentions_label := by
    rw [message_busy]
    exact .here ..
  mentions_key := by
    rw [message_busy]
    exact .later _ (.later _ (.here ..))
  event := ⟨_, rfl, _, _, .cache, rfl⟩

theorem tells_notPopulated (hint : Option String) :
    (notPopulated label hint shown).Tells label shown "retrieve" where
  key := rfl
  operation_eq := rfl
  mentions_label := by
    rw [message_notPopulated]
    exact .here ..
  mentions_key := by
    rw [message_notPopulated]
    exact .later _ (.later _ (.here ..))
  event := ⟨_, rfl, _, _, .scoped, rfl⟩

end Fault

namespace Machine

variable {m m' : Machine}

/-! ### Where a key comes from -/

/-- The frames above `rest` compute the value that the cache `id` was asked for under the key
`shown`, whose text was that then. -/
def CalledFor (m : Machine) (id : Nat) (shown : Spelled) (k : Key) (rest : List Frame) : Prop :=
  ∃ m₁ place compute, Reachable m₁ ∧ Leads m₁ m ∧ place.id = id ∧ m₁.stack = rest ∧
    m₁.control = .eval (.get place shown.value compute) ∧ shown.value.key = .ok k ∧
    m₁.session.memory.text? shown.value = some shown.text

/-- At `m` the resource `id`, which is `r`, turns a request away with `f`. -/
inductive TurnsAway (m : Machine) (id : Nat) (r : Resource) (shown : Spelled) :
    String → Fault → Prop where
  /-- The request is made by the program at work. -/
  | program {p : Program} {operation : String} {f : Fault} (control : m.control = .eval p)
    (denies : Denies m.session p id r shown operation f) : TurnsAway m id r shown operation f
  /-- A computation has ended, and the cache needs a write view to end it, on behalf of the request
  that the computation was called for. -/
  | ending {k : Key} {rest : List Frame} {active : Active}
    (stack : m.stack = .computing id shown k :: rest) (outcome : m.control.isOutcome = true)
    (called : CalledFor m id shown k rest) (obstacle : r.guard.obstacle? .write = some active) :
    TurnsAway m id r shown "write" (.conflict r.guard.label .write active shown)

variable {id : Nat} {r : Resource} {shown : Spelled} {operation : String} {f : Fault}

theorem tells_refusal (label : Label) (owner thread : Thread) (shown : Spelled) :
    (refusal label owner thread shown).Tells label shown "get" := by
  unfold refusal
  split
  · exact Fault.tells_reentrant ..
  · exact Fault.tells_busy ..

theorem TurnsAway.tells (h : TurnsAway m id r shown operation f) :
    f.Tells r.guard.label shown operation := by
  cases h with
  | ending => exact Fault.tells_conflict _ _ .write _
  | program _ denies =>
    cases denies with
    | conflict => exact Fault.tells_conflict ..
    | inProgress _ _ cache =>
      subst cache
      exact tells_refusal ..
    | unpopulated _ _ cache =>
      subst cache
      exact Fault.tells_notPopulated ..

/-- The views of a resource that are held, in words. -/
def viewsHeld (m : Machine) (id : Nat) : String :=
  if 0 < m.held ⟨id, .write⟩ then "write" else s!"{m.held ⟨id, .read⟩} read"

/-- What stands in the way of a request are the views that are held. -/
theorem Faithful.describe_eq {g : Guard} (h : Faithful m id g) {mode : Mode} {active : Active}
    (hactive : g.obstacle? mode = some active) :
    active.describe = m.viewsHeld id ∧
      (0 < m.held ⟨id, .write⟩ ∨ 0 < m.held ⟨id, .read⟩) := by
  have hwriting := h.writing
  have hsingle := h.single
  by_cases hw : g.writing = true
  · have hheld : 0 < m.held ⟨id, .write⟩ := by
      rw [hwriting.mp hw]
      exact Nat.one_pos
    obtain rfl : active = .write := by
      cases mode <;> simpa [Guard.obstacle?, hw, eq_comm] using hactive
    exact ⟨(if_pos hheld).symm, .inl hheld⟩
  · have hheld : ¬0 < m.held ⟨id, .write⟩ := by
      rw [hwriting] at hw
      omega
    -- only read views are active, and they are in the way of a request to write
    cases mode with
    | read => simp [Guard.obstacle?, hw] at hactive
    | write =>
      by_cases hreaders : 0 < g.readers
      · obtain rfl : active = .reads g.readers := by
          simpa [Guard.obstacle?, hw, hreaders, eq_comm] using hactive
        rw [viewsHeld, if_neg hheld, ← h.readers]
        exact ⟨rfl, .inr hreaders⟩
      · simp [Guard.obstacle?, hw, hreaders] at hactive

/-- A conflict over views says which of them were active. -/
theorem TurnsAway.views (h : TurnsAway m id r shown operation f) (hm : Reachable m)
    (found : m.session.resources[id]? = some r) {label : Label} {mode : Mode} {active : Active}
    {key : Spelled} (hf : f = .conflict label mode active key) :
    f.message = s!"{r.guard.label.text}: cannot acquire {operation} view for key {shown.text}; " ++
      s!"{m.viewsHeld id} view already active" ∧
      (0 < m.held ⟨id, .write⟩ ∨ 0 < m.held ⟨id, .read⟩) := by
  have hconflict {mode : Mode} {active : Active} (hactive : r.guard.obstacle? mode = some active) :
      (Fault.conflict r.guard.label mode active shown).message =
        s!"{r.guard.label.text}: cannot acquire {mode.name} view for key {shown.text}; " ++
          s!"{m.viewsHeld id} view already active" ∧
        (0 < m.held ⟨id, .write⟩ ∨ 0 < m.held ⟨id, .read⟩) := by
    obtain ⟨hdescribe, hheld⟩ := (hm.faithful found).describe_eq hactive
    refine ⟨?_, hheld⟩
    rw [Fault.message_conflict, hdescribe]
    simp only [toString, String.append_assoc]
  cases h with
  | ending _ _ _ obstacle => exact hconflict obstacle
  | program _ denies =>
    cases denies with
    | conflict _ obstacle => exact hconflict obstacle
    | inProgress =>
      unfold refusal at hf
      split at hf <;> cases hf
    | unpopulated => cases hf

/-! ### From the refusal on -/

/-- A fault goes from frame to frame. -/
inductive Crosses (f : Fault) : Machine → Machine → Prop where
  | here {m : Machine} (control : m.control = .raise f) : Crosses f m m
  | frame {m n : Machine} {frame : Frame} {rest : List Frame} (before : Crosses f m n)
    (stack : n.stack = frame :: rest) (control : n.step.control = .raise f) : Crosses f m n.step

/-- The fault that `m` raises goes back to a request that was turned away at `m₀`, and tells the
truth about it. -/
structure Recounts (m : Machine) (f : Fault) (m₀ : Machine) (id : Nat) (r : Resource)
    (shown : Spelled) (operation : String) : Prop where
  reachable : Reachable m₀
  crosses : Crosses f m₀.step m
  found : m₀.session.resources[id]? = some r
  refused : TurnsAway m₀ id r shown operation f
  tells : f.Tells r.guard.label shown operation
  /-- The key is shown as it was at the time. -/
  text : m₀.session.memory.text? shown.value = some shown.text
  /-- A conflict over views says which of them were active. -/
  views : ∀ label mode active key, f = .conflict label mode active key →
    f.message = s!"{r.guard.label.text}: cannot acquire {operation} view for key {shown.text}; " ++
      s!"{m₀.viewsHeld id} view already active" ∧
    (0 < m₀.held ⟨id, .write⟩ ∨ 0 < m₀.held ⟨id, .read⟩)
  /-- The last warning tells of the refusal, with the same label, operation and key. -/
  warning : ∃ e, m.session.lastWarning? = some e ∧ e.WarnsOf r.guard.label operation shown

/-- A complaint that crosses a frame is recounted as before. -/
theorem Recounts.frame {m₀ : Machine} (h : Recounts m f m₀ id r shown operation) {frame : Frame}
    {rest : List Frame} (stack : m.stack = frame :: rest) (control : m.step.control = .raise f)
    (quiet : m.step.session.lastWarning? = m.session.lastWarning?) :
    Recounts m.step f m₀ id r shown operation :=
  { h with crosses := h.crosses.frame stack control, warning := by rw [quiet]; exact h.warning }

end Machine

end CheckedMemo
