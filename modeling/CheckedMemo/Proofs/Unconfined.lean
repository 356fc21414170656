import CheckedMemo.Proofs.Contents
import CheckedMemo.Proofs.Effects
import CheckedMemo.Proofs.KnownAddresses
import CheckedMemo.Script.Flow

/-!
# Sessions without confined objects

A program is unconfined if it uses cells, stable caches, value caches and scoped caches, but nothing
that has a part for every thread; if each of its handlers that catches the refusal of a key for
being computed by the same thread also catches that by another thread; and if no handler makes use
of the fault that it has caught (`Program.Unconfined`).  What it refers to are values that it has
been given, so this is said relative to the addresses that are known.

Gathering a program on one thread leaves everything but the threads that it names
(`Program.gathered`).  An unconfined session and the gathered one differ in the owners of marks, and
in the descriptions of faults, which stay unknown (`Session.Gathers`).  No command tells the two
apart (`Session.Gathers.perform`).
-/

namespace CheckedMemo

variable {known known' : Set Nat} {thread : Thread}

/-! ### Gathering -/

/-- The program with everything that it does on other threads done on one. -/
def Program.gathered (thread : Thread) : Program → Program
  | .done value => .done value
  | .fail failure => .fail failure
  | .perform command => .perform command
  | .bind first next => .bind (first.gathered thread) fun v => (next v).gathered thread
  | .attempt body kinds handler =>
    .attempt (body.gathered thread) kinds fun f => (handler f).gathered thread
  | .on _ body => .on thread (body.gathered thread)
  | .timed label enabled body => .timed label enabled (body.gathered thread)
  | .reach target next => .reach target fun place => (next place).gathered thread
  | .view place mode key body => .view place mode key fun v => (body v).gathered thread
  | .get place key compute => .get place key fun v => (compute v).gathered thread
  | .peek place key => .peek place key
  | .copy value => .copy value
  | .store body next =>
    .store (fun call => (body call).gathered thread) fun code => (next code).gathered thread
  | .locate source next => .locate source fun code => (next code).gathered thread
  | .invoke code call => .invoke code call
  | .resolve override providers next =>
    .resolve override providers fun id table => (next id table).gathered thread
  | .fetch override table call => .fetch override table call

/-- The stored code when everything is done on one thread. -/
def Code.gathered (thread : Thread) : Code → Code
  | .body run => .body fun call => (run call).gathered thread
  | .hook override behind => .hook override behind

/-- The table with each of its values replaced. -/
def Table.mapValues {α β γ : Type} (f : β → γ) (t : Table α β) : Table α γ :=
  ⟨t.entries.map fun e => (e.1, f e.2)⟩

/-- The cache with all its marks set by one thread. -/
def StableCache.gathered (thread : Thread) (c : StableCache) : StableCache :=
  { c with pending := c.pending.mapValues fun _ => thread }

/-- The resource with all its marks set by one thread. -/
def Resource.gathered (thread : Thread) : Resource → Resource
  | .stable c => .stable (c.gathered thread)
  | r => r

/-- The session when everything is done on one thread, with a memory of its own. -/
def Session.gathered (thread : Thread) (memory : Memory) (s : Session) : Session :=
  { s with
    thread
    memory
    code := s.code.map (·.gathered thread)
    resources := s.resources.map (·.gathered thread) }

/-- Whether a fault becomes another one when everything is done on one thread: a key that another
thread computes is then one that this thread computes. -/
inductive Fault.Gathers : Fault → Fault → Prop where
  | same (f : Fault) : Gathers f f
  | conflict (label : Label) (key : Spelled) : Gathers (.busy label key) (.reentrant label key)

namespace Fault.Gathers

variable {f g : Fault}

theorem event?_eq (h : f.Gathers g) : g.event? = f.event? := by
  cases h <;> rfl

theorem key?_eq (h : f.Gathers g) : g.key? = f.key? := by
  cases h <;> rfl

theorem isDescribable_eq (h : f.Gathers g) : g.isDescribable = f.isDescribable := by
  cases h <;> rfl

/-- A handler that catches both sorts of refusal or none of them treats the two alike. -/
theorem caught_eq (h : f.Gathers g) {kinds : List Kind}
    (hkinds : kinds.any Kind.reentrant.isA = true → kinds.any Kind.borrow.isA = true) :
    kinds.any g.kind.isA = kinds.any f.kind.isA := by
  cases h with
  | same => rfl
  | conflict label key =>
    refine Bool.eq_iff_iff.mpr ⟨hkinds, fun hborrow => ?_⟩
    -- the one kind is a kind of the other, so what catches the other catches it as well
    obtain ⟨k, hk, hborrow⟩ := List.any_eq_true.mp hborrow
    have hreentrant : Kind.reentrant.isA k = true := by
      cases k <;> first | rfl | exact hborrow
    exact List.any_eq_true.mpr ⟨k, hk, hreentrant⟩

end Fault.Gathers

/-! ### Unconfined programs -/

/-- Whether the arguments of a call refer to known addresses only. -/
structure Call.Within (known : Set Nat) (call : Call) : Prop where
  key : call.key.Within known
  positional : ∀ v ∈ call.positional, v.Within known
  named : ∀ e ∈ call.named, e.2.Within known

/-- Whether an inspection refers to known addresses only. -/
def Inspection.Within (known : Set Nat) : Inspection → Prop
  | .contains _ key | .retrieve _ key => key.Within known
  | .size _ | .stats _ | .label _ | .readers _ | .isBorrowed _ => True

/-- Whether a command on named views refers to known addresses only. -/
def ViewCommand.Within (known : Set Nat) : ViewCommand → Prop
  | .openAs _ _ _ key => key.Within known
  | .close _ failure => ∀ t, failure = some t → (Fault.thrown t).Within known
  | .isOpen _ => True

/-- Whether what is made is no object with a part for every thread. -/
def Creation.Unconfined (known : Set Nat) : Creation → Prop
  | .cell _ content _ => content.Within known
  | .confined .. | .override .. => False
  | .stable .. | .value .. | .scoped .. | .providers _ => True

/-- Whether a command uses no confined object, and refers to known addresses only. -/
def Command.Unconfined (known : Set Nat) : Command → Prop
  | .memory c => c.Within known
  | .inspect i => i.Within known
  | .view c => c.Within known
  | .create c => c.Unconfined known
  | .table c => ∀ override providers, c ≠ .install override providers
  | .settings _ => True
  | .mark v | .spell v => v.Within known

/-- Describes a fault that was caught, and goes on without making use of the description. -/
def Program.describing (f : Fault) (next : Program) : Program :=
  if f.isDescribable then .bind (Script.memory (.newDict (Script.describe f))) fun _ => next
  else .fail Script.indescribable

/-- Whether a handler goes on with a program whatever it has caught.  It may have the fault
described before. -/
inductive Discards (next : Program) : (Fault → Program) → Prop where
  | plain : Discards next fun _ => next
  | described : Discards next fun f => .describing f next

/-- Whether a program that refers to known addresses only is unconfined.  What it does with a value
that it is given later on is asked for all values that will be known then. -/
inductive Program.Unconfined : Set Nat → Program → Prop where
  | done {known : Set Nat} {value : Value} (h : value.Within known) : Unconfined known (.done value)
  | fail {known : Set Nat} {failure : Thrown} (h : (Fault.thrown failure).Within known) :
    Unconfined known (.fail failure)
  | perform {known : Set Nat} {command : Command} (h : command.Unconfined known) :
    Unconfined known (.perform command)
  | bind {known : Set Nat} {first : Program} {next : Value → Program}
    (hfirst : Unconfined known first)
    (hnext : ∀ known', known ⊆ known' → ∀ v, v.Within known' → Unconfined known' (next v)) :
    Unconfined known (.bind first next)
  | attempt {known : Set Nat} {body next : Program} {kinds : List Kind} {handler : Fault → Program}
    (hbody : Unconfined known body)
    (hkinds : kinds.any Kind.reentrant.isA = true → kinds.any Kind.borrow.isA = true)
    (hhandler : Discards next handler) (hnext : Unconfined known next) :
    Unconfined known (.attempt body kinds handler)
  | on {known : Set Nat} {thread : Thread} {body : Program} (hbody : Unconfined known body) :
    Unconfined known (.on thread body)
  | timed {known : Set Nat} {label : String} {enabled : Option Bool} {body : Program}
    (hbody : Unconfined known body) : Unconfined known (.timed label enabled body)
  | reach {known : Set Nat} {name : String} {next : Place → Program}
    (hnext : ∀ place, Unconfined known (next place)) :
    Unconfined known (.reach (.named name) next)
  | view {known : Set Nat} {place : Place} {mode : Mode} {key : Value} {body : Value → Program}
    (hkey : key.Within known)
    (hbody : ∀ known', known ⊆ known' → ∀ v, v.Within known' → Unconfined known' (body v)) :
    Unconfined known (.view place mode key body)
  | get {known : Set Nat} {place : Place} {key : Value} {compute : Value → Program}
    (hkey : key.Within known) (hcompute : Unconfined known (compute key)) :
    Unconfined known (.get place key compute)
  | peek {known : Set Nat} {place : Place} {key : Value} (hkey : key.Within known) :
    Unconfined known (.peek place key)
  | copy {known : Set Nat} {value : Value} (h : value.Within known) : Unconfined known (.copy value)
  | store {known : Set Nat} {body : Call → Program} {next : Nat → Program}
    (hbody : ∀ known', known ⊆ known' → ∀ call : Call, call.Within known' →
      Unconfined known' (body call))
    (hnext : ∀ code, Unconfined known (next code)) : Unconfined known (.store body next)
  | locate {known : Set Nat} {source : Source} {next : Nat → Program}
    (hnext : ∀ code, Unconfined known (next code)) : Unconfined known (.locate source next)
  | invoke {known : Set Nat} {code : Nat} {call : Call} (h : call.Within known) :
    Unconfined known (.invoke code call)

theorem Call.Within.mono {call : Call} (hsub : known ⊆ known') (h : call.Within known) :
    call.Within known' :=
  ⟨h.key.mono hsub, fun v hv => (h.positional v hv).mono hsub,
    fun e he => (h.named e he).mono hsub⟩

theorem Command.Unconfined.mono {c : Command} (hsub : known ⊆ known') (h : c.Unconfined known) :
    c.Unconfined known' := by
  cases c with
  | memory c => exact Memory.Command.Within.mono hsub h
  | inspect i =>
    cases i with
    | contains place key | retrieve place key => exact Value.Within.mono hsub h
    | size | stats | label | readers | isBorrowed => trivial
  | view c =>
    cases c with
    | openAs name place mode key => exact Value.Within.mono hsub h
    | close name failure => exact fun t ht => (h t ht).mono hsub
    | isOpen => trivial
  | create c =>
    cases c with
    | cell name content label => exact Value.Within.mono hsub h
    | confined | override => exact h.elim
    | stable | value | «scoped» | providers => trivial
  | table => exact h
  | settings => trivial
  | mark v | spell v => exact Value.Within.mono hsub h

/-- A program stays unconfined when more addresses are known. -/
theorem Program.Unconfined.mono {p : Program} (h : p.Unconfined known) (hsub : known ⊆ known') :
    p.Unconfined known' := by
  induction h generalizing known' with
  | done h => exact .done (h.mono hsub)
  | fail h => exact .fail (h.mono hsub)
  | perform h => exact .perform (h.mono hsub)
  | bind _ hnext ih =>
    exact .bind (ih hsub) fun more hmore => hnext more (hsub.trans hmore)
  | attempt _ hkinds hhandler _ ihbody ihnext =>
    exact .attempt (ihbody hsub) hkinds hhandler (ihnext hsub)
  | on _ ih => exact .on (ih hsub)
  | timed _ ih => exact .timed (ih hsub)
  | reach _ ih => exact .reach fun place => ih place hsub
  | view hkey hbody => exact .view (hkey.mono hsub) fun more hmore => hbody more (hsub.trans hmore)
  | get hkey _ ih => exact .get (hkey.mono hsub) (ih hsub)
  | peek hkey => exact .peek (hkey.mono hsub)
  | copy h => exact .copy (h.mono hsub)
  | store hbody _ _ ih =>
    exact .store (fun more hmore => hbody more (hsub.trans hmore)) fun code => ih code hsub
  | locate _ ih => exact .locate fun code => ih code hsub
  | invoke h => exact .invoke (h.mono hsub)

/-! ### Unconfined sessions -/

/-- Whether stored code is unconfined whatever known addresses it is called with. -/
def Code.Unconfined (known : Set Nat) : Code → Prop
  | .body run => ∀ known', known ⊆ known' → ∀ call : Call, call.Within known' →
    (run call).Unconfined known'
  | .hook .. => False

/-- Whether the content and the stored values of a resource refer to known addresses only. -/
structure Resource.Within (known : Set Nat) (r : Resource) : Prop where
  content : r.content.Within known
  stored (k : Key) (v : Value) (h : r.slots.get? k = some v) : v.Within known

/-- Whether a name refers to nothing that has a part for every thread. -/
def Handle.IsUnconfined : Handle → Prop
  | .resource _ | .scoped .. | .providers _ => True
  | .confined _ | .override _ => False

/-- Whether the code, the resources and the names of a session are unconfined. -/
structure Session.Unconfined (known : Set Nat) (s : Session) : Prop where
  code : ∀ c ∈ s.code, c.Unconfined known
  resources : ∀ r ∈ s.resources, r.Within known
  names (name : String) (h : Handle) (hname : s.names.get? name = some h) : h.IsUnconfined

/-- Whether an unconfined session becomes another one when everything is done on one thread: code
and marks are gathered, and the memories are the same within the known addresses. -/
structure Session.Gathers (thread : Thread) (known : Set Nat) (s t : Session) : Prop where
  eq : t = s.gathered thread t.memory
  memory : s.memory.SameWithin known t.memory
  unconfined : s.Unconfined known

theorem Code.Unconfined.mono {c : Code} (h : c.Unconfined known) (hsub : known ⊆ known') :
    c.Unconfined known' := by
  cases c with
  | body run => exact fun more hmore => h more (hsub.trans hmore)
  | hook => exact h

theorem Resource.Within.mono {r : Resource} (h : r.Within known) (hsub : known ⊆ known') :
    r.Within known' :=
  ⟨h.content.mono hsub, fun k v hv => (h.stored k v hv).mono hsub⟩

theorem Session.Unconfined.mono {s : Session} (h : s.Unconfined known) (hsub : known ⊆ known') :
    s.Unconfined known' :=
  ⟨fun c hc => (h.code c hc).mono hsub, fun r hr => (h.resources r hr).mono hsub, h.names⟩

/-! ### Tables and resources -/

namespace Table

variable {α β γ : Type} [DecidableEq α] (f : β → γ) (t : Table α β) (a : α)

theorem get?_mapValues : (t.mapValues f).get? a = (t.get? a).map f := by
  obtain ⟨entries⟩ := t
  induction entries with
  | nil => rfl
  | cons e rest ih => grind [get?, lookup, mapValues]

theorem mapValues_insert (b : β) : (t.insert a b).mapValues f = (t.mapValues f).insert a (f b) := by
  obtain ⟨entries⟩ := t
  induction entries with
  | nil => rfl
  | cons e rest ih => grind [insert, put, mapValues]

theorem mapValues_erase : (t.erase a).mapValues f = (t.mapValues f).erase a := by
  obtain ⟨entries⟩ := t
  induction entries with
  | nil => rfl
  | cons e rest ih => grind [erase, drop, mapValues]

end Table

namespace Resource

theorem gathered_mapGuard (f : Guard → Guard) (r : Resource) :
    (r.mapGuard f).gathered thread = (r.gathered thread).mapGuard f := by
  cases r <;> rfl

theorem guard_gathered (r : Resource) : (r.gathered thread).guard = r.guard := by
  cases r <;> rfl

theorem content_gathered (r : Resource) : (r.gathered thread).content = r.content := by
  cases r <;> rfl

theorem Within.mapGuard {r : Resource} (h : r.Within known) (f : Guard → Guard) :
    (r.mapGuard f).Within known := by
  cases r <;> exact ⟨h.content, h.stored⟩

end Resource

/-! ### Requests -/

namespace Request

variable {r : Request}

theorem yields_spelled (hr : r.key.Within known) :
    Yields known (fun shown => shown.value.Within known) r.spelled := by
  unfold spelled
  split
  · exact .ok hr
  · exact .quiet rfl

theorem within_fault {cause : Spelled → Fault} (hr : r.key.Within known)
    (hcause : ∀ shown : Spelled, shown.value.Within known → (cause shown).Within known) :
    (r.fault cause).Within known := by
  have hspelled := yields_spelled hr
  unfold fault
  split
  · rename_i shown hshown
    exact hcause shown (hspelled.value shown hshown)
  · rename_i f hf
    exact hspelled.fault f hf

end Request

section

variable {r : Request} (hr : r.key.Within known)

include hr

theorem Guard.yields_allow (g : Guard) (mode : Mode) :
    Yields known (fun _ => True) (g.allow mode r) := by
  unfold Guard.allow
  split
  · exact .ok trivial
  · exact .error (r.within_fault hr fun shown hshown key hkey => by cases hkey; exact hshown)

namespace StableCache

variable {c : StableCache}

theorem yields_find (hc : ∀ k v, c.slots.get? k = some v → v.Within known) :
    Yields known (fun found => ∀ v, found = some v → v.Within known) (c.find r) :=
  (c.guard.yields_allow hr .read).bind fun _ _ =>
    (Yields.keyless r.keyless_index).bind fun k _ => .ok (hc k)

theorem yields_contains (hc : ∀ k v, c.slots.get? k = some v → v.Within known) :
    Yields known (fun _ => True) (c.contains r) :=
  (yields_find hr hc).bind fun _ _ => .ok trivial

theorem yields_peek (hc : ∀ k v, c.slots.get? k = some v → v.Within known) :
    Yields known (·.Within known) (c.peek r) := by
  refine (yields_find hr hc).bind fun found hfound => ?_
  cases found with
  | some v => exact .ok (hfound v rfl)
  | none => exact .quiet (r.key?_absent c.label)

theorem yields_retrieve (hc : ∀ k v, c.slots.get? k = some v → v.Within known)
    (hint : Option String) : Yields known (·.Within known) (c.retrieve hint r) := by
  refine (yields_contains hr hc).bind fun found _ => ?_
  cases found with
  | true => exact yields_peek hr hc
  | false =>
    exact .error (r.within_fault hr fun shown hshown key hkey => by cases hkey; exact hshown)

end StableCache

namespace Resource

variable {resource : Resource}

theorem yields_contains (h : resource.Within known) :
    Yields known (fun _ => True) (resource.contains r) := by
  cases resource with
  | cell => exact .quiet rfl
  | stable c => exact StableCache.yields_contains hr h.stored
  | value c =>
    exact (c.guard.yields_allow hr .read).bind fun _ _ =>
      (Yields.keyless r.keyless_index).bind fun _ _ => .ok trivial

theorem yields_size (resource : Resource) : Yields known (fun _ => True) (resource.size r) := by
  cases resource with
  | cell => exact .quiet rfl
  | stable c => exact (c.guard.yields_allow hr .read).bind fun _ _ => .ok trivial
  | value c => exact (c.guard.yields_allow hr .read).bind fun _ _ => .ok trivial

theorem yields_retrieve (h : resource.Within known) (hint : Option String) :
    Yields known (·.Within known) (resource.retrieve hint r) := by
  cases resource with
  | stable c => exact StableCache.yields_retrieve hr h.stored hint
  | cell | value => exact .quiet rfl

end Resource

end

/-! ### Operations of a session -/

namespace Session.Gathers

variable {s t s' : Session} {id : Nat}

/-- A change that touches neither the memory nor the code, the resources or the names. -/
theorem plain (h : s.Gathers thread known t) (change : Session → Session)
    (commutes : change (s.gathered thread t.memory) = (change s).gathered thread t.memory)
    (memory : (change s).memory = s.memory) (code : (change s).code = s.code)
    (resources : (change s).resources = s.resources) (names : (change s).names = s.names) :
    (change s).Gathers thread known (change t) := by
  have hgathered : change t = (change s).gathered thread t.memory := by
    rw [h.eq]
    exact commutes
  rw [hgathered]
  exact ⟨rfl, memory ▸ h.memory, code ▸ h.unconfined.code, resources ▸ h.unconfined.resources,
    names ▸ h.unconfined.names⟩

/-- More addresses may be known once both memories have changed. -/
theorem remember (h : s.Gathers thread known t) (hsub : known ⊆ known') {m n : Memory}
    (hmn : m.SameWithin known' n) :
    { s with memory := m }.Gathers thread known' { t with memory := n } := by
  refine ⟨?_, hmn, h.unconfined.mono hsub |>.code, h.unconfined.mono hsub |>.resources,
    h.unconfined.names⟩
  rw [h.eq]
  rfl

theorem request_eq (h : s.Gathers thread known t) {key : Value} (hkey : key.Within known) :
    t.request key = s.request key := by
  have htext : t.memory.text? key = s.memory.text? key := h.memory.text?_eq hkey
  unfold request
  rw [htext]

/-! #### What the two sessions share -/

theorem names_eq (h : s.Gathers thread known t) : t.names = s.names := by
  rw [h.eq]
  rfl

theorem views_eq (h : s.Gathers thread known t) : t.views = s.views := by
  rw [h.eq]
  rfl

theorem environment_eq (h : s.Gathers thread known t) : t.environment = s.environment := by
  rw [h.eq]
  rfl

theorem sink_eq (h : s.Gathers thread known t) : t.sink = s.sink := by
  rw [h.eq]
  rfl

theorem journal_eq (h : s.Gathers thread known t) : t.journal = s.journal := by
  rw [h.eq]
  rfl

theorem size_providers (h : s.Gathers thread known t) : t.providers.size = s.providers.size := by
  rw [h.eq]
  rfl

/-! #### Reports -/

theorem log (h : s.Gathers thread known t) (e : Event) :
    (s.log e).Gathers thread known (t.log e) := h.plain (·.log e) rfl rfl rfl rfl rfl

theorem report (h : s.Gathers thread known t) {f g : Fault} (hfg : f.Gathers g) :
    (s.report f).Gathers thread known (t.report g) := by
  unfold Session.report
  rw [hfg.event?_eq]
  split
  · exact h.log _
  · exact h

theorem foldl_report (h : s.Gathers thread known t) (fs : List Fault) :
    (fs.foldl Session.report s).Gathers thread known (fs.foldl Session.report t) := by
  induction fs generalizing s t with
  | nil => exact h
  | cons f fs ih => exact ih (h.report (.same f))

/-! #### Threads -/

theorem thread_eq (h : s.Gathers thread known t) : t.thread = thread := by
  rw [h.eq]
  rfl

/-- Whatever thread the session goes over to, the gathered one stays where it is. -/
theorem setThread (h : s.Gathers thread known t) (other : Thread) :
    { s with thread := other }.Gathers thread known { t with thread } := by
  refine ⟨?_, h.memory, h.unconfined.code, h.unconfined.resources, h.unconfined.names⟩
  rw [h.eq]
  rfl

/-! #### Resources, names and code -/

theorem getElem?_resources (h : s.Gathers thread known t) (id : Nat) :
    t.resources[id]? = s.resources[id]?.map (·.gathered thread) := by
  rw [h.eq]
  exact Array.getElem?_map

theorem size_resources (h : s.Gathers thread known t) : t.resources.size = s.resources.size := by
  rw [h.eq]
  exact Array.size_map

theorem getElem?_code (h : s.Gathers thread known t) (id : Nat) :
    t.code[id]? = s.code[id]?.map (·.gathered thread) := by
  rw [h.eq]
  exact Array.getElem?_map

theorem size_code (h : s.Gathers thread known t) : t.code.size = s.code.size := by
  rw [h.eq]
  exact Array.size_map

theorem within (h : s.Gathers thread known t) {r : Resource} (found : s.resources[id]? = some r) :
    r.Within known :=
  h.unconfined.resources r (Array.mem_of_getElem? found)

theorem setResource (h : s.Gathers thread known t) (id : Nat) {r : Resource}
    (hr : r.Within known) :
    (s.setResource id r).Gathers thread known (t.setResource id (r.gathered thread)) := by
  refine ⟨?_, h.memory, h.unconfined.code, fun r' hr' => ?_, h.unconfined.names⟩
  · rw [h.eq]
    show Session.mk .. = Session.mk ..
    congr 1
    exact Array.map_setIfInBounds.symm
  · rcases Array.mem_or_eq_of_mem_setIfInBounds hr' with hr' | rfl
    · exact h.unconfined.resources r' hr'
    · exact hr

theorem addResource (h : s.Gathers thread known t) {r : Resource} (hr : r.Within known) :
    (s.addResource r).2.Gathers thread known (t.addResource (r.gathered thread)).2 := by
  refine ⟨?_, h.memory, h.unconfined.code, fun r' hr' => ?_, h.unconfined.names⟩
  · rw [h.eq]
    show Session.mk .. = Session.mk ..
    congr 1
    exact Array.map_push.symm
  · rcases Array.mem_push.mp hr' with hr' | rfl
    · exact h.unconfined.resources r' hr'
    · exact hr

theorem bindName (h : s.Gathers thread known t) (name : String) {handle : Handle}
    (hhandle : handle.IsUnconfined) :
    (s.bindName name handle).Gathers thread known (t.bindName name handle) := by
  refine ⟨by rw [h.eq]; rfl, h.memory, h.unconfined.code, h.unconfined.resources,
    fun name' handle' hname => ?_⟩
  rw [show (s.bindName name handle).names = s.names.insert name handle from rfl,
    Table.get?_insert] at hname
  split at hname
  · cases hname
    exact hhandle
  · exact h.unconfined.names name' handle' hname

theorem addCode (h : s.Gathers thread known t) {c : Code} (hc : c.Unconfined known) :
    (s.addCode c).2.Gathers thread known (t.addCode (c.gathered thread)).2 := by
  refine ⟨?_, h.memory, fun c' hc' => ?_, h.unconfined.resources, h.unconfined.names⟩
  · rw [h.eq]
    show Session.mk .. = Session.mk ..
    congr 1
    exact Array.map_push.symm
  · rcases Array.mem_push.mp hc' with hc' | rfl
    · exact h.unconfined.code c' hc'
    · exact hc

/-! #### Views -/

theorem release (h : s.Gathers thread known t) (id : Nat) (mode : Mode) :
    (s.release id mode).Gathers thread known (t.release id mode) := by
  unfold Session.release
  rw [h.getElem?_resources]
  cases hfound : s.resources[id]? with
  | none => exact h
  | some r =>
    have hset := h.setResource id ((h.within hfound).mapGuard (·.release mode))
    rw [Resource.gathered_mapGuard] at hset
    exact hset

theorem setViews (h : s.Gathers thread known t) (views : Table String OpenView) :
    { s with views }.Gathers thread known { t with views } :=
  h.plain ({ · with views }) rfl rfl rfl rfl rfl

theorem dropNamed (h : s.Gathers thread known t) (name : String) :
    (s.dropNamed name).Gathers thread known (t.dropNamed name) := by
  unfold Session.dropNamed
  rw [h.views_eq]
  cases s.views.get? name with
  | none => exact h
  | some v =>
    exact (h.release v.resource v.mode).setViews _

/-- A view is refused in both sessions, or opened in both. -/
theorem openView (h : s.Gathers thread known t) (id : Nat) (mode : Mode) {key : Value}
    (hkey : key.Within known) :
    (∃ f, s.openView id mode key = .error f ∧ t.openView id mode key = .error f ∧
      f.Within known) ∨
    ∃ v s' t', s.openView id mode key = .ok ⟨v, s'⟩ ∧ t.openView id mode key = .ok ⟨v, t'⟩ ∧
      v.Within known ∧ s'.Gathers thread known t' := by
  unfold Session.openView
  rw [h.getElem?_resources, h.request_eq hkey]
  cases hfound : s.resources[id]? with
  | none => exact .inl ⟨_, rfl, rfl, Fault.within_of_none rfl⟩
  | some r =>
    dsimp only [Option.map_some]
    have hallow := Guard.yields_allow (r := s.request key) hkey r.guard mode
    have hset := h.setResource id ((h.within hfound).mapGuard (·.acquire mode))
    rw [Resource.gathered_mapGuard] at hset
    rw [Resource.guard_gathered, Resource.content_gathered]
    cases hr : r.guard.allow mode (s.request key) with
    | error f =>
      exact .inl ⟨f, rfl, rfl, hallow.fault f hr⟩
    | ok u => exact .inr ⟨_, _, _, rfl, rfl, (h.within hfound).content, hset⟩

/-! #### Replies -/

theorem replies (h : s.Gathers thread known t) {r : Except Fault Value}
    (hr : Yields known (·.Within known) r) :
    RepliesAlike (Session.Gathers thread) known (r, s) (r, t) :=
  ⟨known, subset_rfl, rfl, hr, h⟩

/-- A value that needs no memory. -/
theorem replies_ok (h : s.Gathers thread known t) {v : Value} (hv : v.Within known) :
    RepliesAlike (Session.Gathers thread) known (.ok v, s) (.ok v, t) := h.replies (.ok hv)

theorem replies_error (h : s.Gathers thread known t) {f : Fault} (hf : f.Within known) :
    RepliesAlike (Session.Gathers thread) known (.error f, s) (.error f, t) := h.replies (.error hf)

/-- A step on memory gives the same reply in both sessions. -/
theorem replies_memory (h : s.Gathers thread known t) {r r' : Except Fault Value × Memory}
    (hr : RepliesAlike Memory.SameWithin known r r') :
    RepliesAlike (Session.Gathers thread) known (r.1, { s with memory := r.2 })
      (r'.1, { t with memory := r'.2 }) := by
  obtain ⟨known', hsub, heq, hyields, hmemory⟩ := hr
  exact ⟨known', hsub, heq, hyields, h.remember hsub hmemory⟩

/-- A new list gives the same reply in both sessions. -/
theorem replies_newList (h : s.Gathers thread known t) {items : List Value}
    (hitems : ∀ v ∈ items, v.Within known) :
    RepliesAlike (Session.Gathers thread) known
      (.ok (s.memory.newList items).1, { s with memory := (s.memory.newList items).2 })
      (.ok (t.memory.newList items).1, { t with memory := (t.memory.newList items).2 }) :=
  h.replies_memory (h.memory.run (c := .newList items) hitems)

/-! #### Commands -/

theorem view (h : s.Gathers thread known t) {c : ViewCommand} (hc : c.Within known) :
    RepliesAlike (Session.Gathers thread) known (s.view c) (t.view c) := by
  cases c with
  | isOpen name =>
    unfold Session.view
    rw [h.views_eq]
    exact h.replies_ok trivial
  | openAs name place mode key =>
    rw [Session.view, Session.view]
    unfold openNamed
    rcases h.openView place.id mode hc with ⟨f, hs, ht, hf⟩ | ⟨v, s', t', hs, ht, hv, hopen⟩
    · rw [hs, ht]
      exact h.replies_error hf
    · rw [hs, ht]
      have hdrop := hopen.dropNamed name
      dsimp only
      rw [hdrop.views_eq]
      exact (hdrop.setViews _).replies_ok hv
  | close name failure =>
    rw [Session.view, Session.view]
    unfold closeNamed
    rw [h.views_eq]
    split
    · cases failure with
      | none => exact (h.dropNamed name).replies_ok trivial
      | some failure => exact (h.dropNamed name).replies_error (hc failure rfl)
    · exact h.replies_ok trivial

/-- What is asked of a resource does not depend on the owners of marks. -/
theorem replies_resource (h : s.Gathers thread known t) (id : Nat)
    {ask : Resource → Except Fault Value}
    (same : ∀ r : Resource, ask (r.gathered thread) = ask r)
    (yields : ∀ r : Resource, r.Within known → Yields known (·.Within known) (ask r)) :
    RepliesAlike (Session.Gathers thread) known (s.resource id >>= ask, s)
      (t.resource id >>= ask, t) := by
  unfold Session.resource
  rw [h.getElem?_resources]
  cases hfound : s.resources[id]? with
  | none => exact h.replies (.quiet rfl)
  | some r =>
    have heq : (Except.ok (r.gathered thread) >>= ask) = ask r := same r
    dsimp only [Option.map_some]
    rw [heq]
    exact h.replies (yields r (h.within hfound))

theorem inspect (h : s.Gathers thread known t) {i : Inspection} (hi : i.Within known) :
    RepliesAlike (Session.Gathers thread) known (s.inspect i) (t.inspect i) := by
  cases i with
  | contains place key =>
    rw [Session.inspect, Session.inspect, h.request_eq hi]
    exact h.replies_resource place.id (fun r => by cases r <;> rfl) fun r hr =>
      (Resource.yields_contains (r := s.request key) hi hr).bind fun _ _ => .ok trivial
  | retrieve place key =>
    rw [Session.inspect, Session.inspect, h.request_eq hi]
    exact h.replies_resource place.id (fun r => by cases r <;> rfl) fun r hr =>
      Resource.yields_retrieve (r := s.request key) hi hr place.hint
  | size place =>
    rw [Session.inspect, Session.inspect, h.request_eq (show Value.null.Within known from trivial)]
    exact h.replies_resource place.id (fun r => by cases r <;> rfl) fun r _ =>
      (Resource.yields_size (r := s.request .null) trivial r).bind fun _ _ => .ok trivial
  | label place | readers place | isBorrowed place =>
    exact h.replies_resource place.id (fun r => by cases r <;> rfl) fun _ _ => .ok trivial
  | stats place =>
    rw [Session.inspect, Session.inspect]
    unfold Session.stats Session.resource
    rw [h.getElem?_resources]
    cases s.resources[place.id]? with
    | none => exact h.replies (.quiet rfl)
    | some r =>
      cases r with
      | cell => exact h.replies (.quiet rfl)
      | stable c | value c =>
        exact h.replies_newList (List.forall_mem_cons.mpr
          ⟨trivial, List.forall_mem_singleton.mpr trivial⟩)

theorem create (h : s.Gathers thread known t) {c : Creation} (hc : c.Unconfined known) :
    (s.create c).Gathers thread known (t.create c) := by
  have hempty {r : Resource} (hcontent : r.content.Within known) (hslots : r.slots = ∅) :
      r.Within known := by
    refine ⟨hcontent, fun k v hv => ?_⟩
    rw [hslots] at hv
    cases hv
  have hadded (name : String) (handle : Nat → Handle) {r : Resource} (hr : r.Within known)
      (hhandle : (handle s.resources.size).IsUnconfined) :
      ((s.addResource r).2.bindName name (handle s.resources.size)).Gathers thread known
        ((t.addResource (r.gathered thread)).2.bindName name (handle t.resources.size)) := by
    rw [h.size_resources]
    exact (h.addResource hr).bindName name hhandle
  cases c with
  | cell name content label =>
    exact hadded name .resource (r := .cell _ content) (hempty hc rfl) trivial
  | stable name label =>
    exact hadded name .resource (r := .stable _) (hempty trivial rfl) trivial
  | value name label =>
    exact hadded name .resource (r := .value _) (hempty trivial rfl) trivial
  | «scoped» name label hint =>
    exact hadded name (.scoped · (shownHint hint)) (r := .stable _) (hempty trivial rfl) trivial
  | providers name =>
    have hpushed := h.plain (fun s => { s with providers := s.providers.push ∅ })
      rfl rfl rfl rfl rfl
    rw [Session.create, Session.create, h.size_providers]
    exact hpushed.bindName name (show (Handle.providers s.providers.size).IsUnconfined from trivial)
  | confined | override => exact hc.elim

/-! #### Tables and settings -/

theorem tableNamed_eq (h : s.Gathers thread known t) (name : String) :
    t.tableNamed name = s.tableNamed name := by
  rw [h.eq]
  rfl

theorem codeAt_eq (h : s.Gathers thread known t) (source : Source) :
    t.codeAt source = s.codeAt source := by
  rw [h.eq]
  cases source <;> rfl

theorem setTable (h : s.Gathers thread known t) (id : Nat) (table : Table String Nat) :
    (s.setTable id table).Gathers thread known (t.setTable id table) :=
  h.plain (·.setTable id table) rfl rfl rfl rfl rfl

theorem table (h : s.Gathers thread known t) {c : TableCommand}
    (hc : ∀ override providers, c ≠ .install override providers) :
    RepliesAlike (Session.Gathers thread) known (s.table c) (t.table c) := by
  have hset (id : Nat) (table : Table String Nat) :
      RepliesAlike (Session.Gathers thread) known (.ok .null, s.setTable id table)
        (.ok .null, t.setTable id table) := (h.setTable id table).replies_ok trivial
  cases c with
  | define function code =>
    exact (h.plain (fun s => { s with functions := s.functions.insert function code })
      rfl rfl rfl rfl rfl).replies_ok trivial
  | provide providers query code =>
    have hnamed := s.keyless_tableNamed providers
    rw [Session.table, Session.table, h.tableNamed_eq]
    generalize s.tableNamed providers = found at hnamed
    cases found with
    | error f => exact h.replies (.quiet (hnamed f rfl))
    | ok p => exact hset ..
  | «alias» providers query otherProviders otherQuery =>
    have hcode := s.keyless_codeAt (.provider providers query)
    have hnamed := s.keyless_tableNamed otherProviders
    rw [Session.table, Session.table, aliasEntry, aliasEntry, h.codeAt_eq, h.tableNamed_eq]
    generalize s.codeAt (.provider providers query) = code at hcode
    generalize s.tableNamed otherProviders = found at hnamed
    cases code with
    | error f => exact h.replies (.quiet (hcode f rfl))
    | ok code =>
      cases found with
      | error f => exact h.replies (.quiet (hnamed f rfl))
      | ok p => exact hset ..
  | withdraw providers query =>
    have hnamed := s.keyless_tableNamed providers
    rw [Session.table, Session.table, Session.withdraw, Session.withdraw, h.tableNamed_eq]
    generalize s.tableNamed providers = found at hnamed
    cases found with
    | error f => exact h.replies (.quiet (hnamed f rfl))
    | ok p =>
      rw [ok_bind, ok_bind]
      dsimp only
      split
      · exact hset ..
      · exact h.replies (.quiet rfl)
  | queries providers =>
    have hnamed := s.keyless_tableNamed providers
    rw [Session.table, Session.table, queries, queries, h.tableNamed_eq]
    generalize s.tableNamed providers = found at hnamed
    cases found with
    | error f => exact h.replies (.quiet (hnamed f rfl))
    | ok p =>
      refine h.replies_newList fun v hv => ?_
      obtain ⟨name, -, rfl⟩ := List.mem_map.mp hv
      trivial
  | install override providers => exact absurd rfl (hc override providers)

theorem settingsValue (h : s.Gathers thread known t) (settings : Settings) :
    RepliesAlike (Session.Gathers thread) known (s.settingsValue settings)
      (t.settingsValue settings) := by
  have hentry (name : String) {v : Value} (hv : v.Within known) :
      (Value.text name).Within known ∧ v.Within known := ⟨trivial, hv⟩
  have hentries : ∀ e ∈ [(Value.text "log_level", Value.text settings.level),
      (.text "log_json", .bool settings.json), (.text "timing_enabled", .bool settings.timing)],
      e.1.Within known ∧ e.2.Within known :=
    List.forall_mem_cons.mpr ⟨hentry _ trivial, List.forall_mem_cons.mpr ⟨hentry _ trivial,
      List.forall_mem_singleton.mpr (hentry _ trivial)⟩⟩
  exact h.replies_memory (h.memory.run (c := .newDict _) hentries)

theorem configured (h : s.Gathers thread known t) {r : Except Fault Logging} (hr : Keyless r) :
    RepliesAlike (Session.Gathers thread) known (s.configured r) (t.configured r) := by
  cases r with
  | error f => exact h.replies (.quiet (hr f rfl))
  | ok l =>
    rw [Session.configured, Session.configured, h.sink_eq]
    exact (h.plain ({ · with sink := s.sink.configure l }) rfl rfl rfl rfl rfl).replies_ok
      trivial

theorem settings (h : s.Gathers thread known t) (c : SettingsCommand) :
    RepliesAlike (Session.Gathers thread) known (s.settings c) (t.settings c) := by
  cases c with
  | setEnvironment changes =>
    exact (h.plain (fun s => { s with environment := s.environment.change changes })
      rfl rfl rfl rfl rfl).replies_ok trivial
  | readSettings =>
    unfold Session.settings
    dsimp only
    rw [h.environment_eq]
    cases hread : s.environment.settings with
    | ok settings => exact h.settingsValue settings
    | error f => exact h.replies (.quiet (s.environment.keyless_settings f hread))
  | readLevel =>
    unfold Session.settings
    dsimp only
    rw [h.environment_eq]
    exact h.replies ((Yields.keyless s.environment.keyless_level).map fun _ _ => trivial)
  | readTiming =>
    unfold Session.settings
    dsimp only
    rw [h.environment_eq]
    exact h.replies ((Yields.keyless s.environment.keyless_timing).map fun _ _ => trivial)
  | showSettings settings => exact h.settingsValue settings
  | configure level json =>
    rw [show s.settings (.configure level json) = _ from s.configure_eq_configured ..,
      show t.settings (.configure level json) = _ from t.configure_eq_configured ..]
    exact h.configured (Logging.keyless_ofText level json)
  | configureFromEnvironment =>
    rw [show s.settings .configureFromEnvironment = _ from
        perform_of_requested (s := s) (c := .settings .configureFromEnvironment) rfl,
      show t.settings .configureFromEnvironment = _ from
        perform_of_requested (s := t) (c := .settings .configureFromEnvironment) rfl,
      h.environment_eq]
    exact h.configured (s.environment.keyless_settings.bind fun _ => Logging.keyless_ofText _ _)
  | log e =>
    unfold Session.settings logChecked
    dsimp only
    rw [h.sink_eq]
    cases hrendered : e.lines s.sink with
    | ok lines => exact (h.log e).replies_ok trivial
    | error f => exact h.replies (.quiet (e.keyless_lines s.sink f hrendered))

theorem mark (h : s.Gathers thread known t) {v : Value} (hv : v.Within known) :
    RepliesAlike (Session.Gathers thread) known (s.mark v) (t.mark v) := by
  unfold Session.mark
  rw [h.memory.written_eq hv]
  cases hseen : s.memory.written v with
  | ok seen =>
    exact (h.plain (fun s => { s with journal := s.journal.push (.mark seen) })
      rfl rfl rfl rfl rfl).replies_ok trivial
  | error f =>
    have hf : f = .unspellable := by
      unfold Memory.written at hseen
      dsimp only at hseen
      split at hseen <;> cases hseen
      rfl
    exact h.replies (hf ▸ .quiet rfl)

/-- An unconfined command gives the same reply in a session and in the gathered one. -/
theorem perform (h : s.Gathers thread known t) {c : Command} (hc : c.Unconfined known) :
    RepliesAlike (Session.Gathers thread) known (s.perform c) (t.perform c) := by
  cases c with
  | memory c => exact h.replies_memory (h.memory.run hc)
  | inspect i => exact h.inspect hc
  | view c => exact h.view hc
  | create c => exact (h.create hc).replies_ok trivial
  | table c => exact h.table hc
  | settings c => exact h.settings c
  | mark v => exact h.mark hc
  | spell v =>
    rw [Session.perform, Session.perform, h.request_eq hc]
    exact h.replies ((Request.yields_spelled (r := s.request v) hc).map fun _ _ => trivial)

end Session.Gathers

end CheckedMemo
