import CheckedMemo.Machine.Step
import CheckedMemo.Proofs.UnconfinedTerms
import CheckedMemo.Transcript
import Mathlib.Data.List.Forall2

/-!
# Threads matter to confined objects only

An unconfined session, and the same session with everything done on one thread, do the same, step by
step (`Machine.Gathers.step`).  The two machines are always at the same point of the same program.
They differ in the owners of marks, in the kind of the fault that refuses a marked key, and for two
steps, while a handler has such a fault described, in the description.  Nobody refers to the
description afterwards, so it stays at an address that is not known.

The main statement is `only_conflicts_tell_threads`.
-/

namespace CheckedMemo

variable {known known' : Set Nat} {thread : Thread}

/-! ### Requests to caches -/

/-- Whether two outcomes are the same, but that a fault may be another one when everything is done
on one thread.  They refer to known addresses only. -/
inductive OutcomesGather (known : Set Nat) : Except Fault Value → Except Fault Value → Prop where
  | value {v : Value} (hv : v.Within known) : OutcomesGather known (.ok v) (.ok v)
  | fault {f g : Fault} (hfg : f.Gathers g) (hf : f.Within known) :
    OutcomesGather known (.error f) (.error g)

/-- Whether two caches answer a request alike, but that the marks are set by one thread in the
second one, and a marked key is refused for being computed by that thread. -/
inductive StartsGather (known : Set Nat) (thread : Thread) :
    Except Fault (Lookup StableCache) → Except Fault (Lookup StableCache) → Prop where
  | hit {v : Value} {c : StableCache} (hv : v.Within known)
    (hc : (Resource.stable c).Within known) :
    StartsGather known thread (.ok (.hit v c)) (.ok (.hit v (c.gathered thread)))
  | miss {key : Spelled} {k : Key} {c : StableCache} (hkey : key.value.Within known)
    (hc : (Resource.stable c).Within known) :
    StartsGather known thread (.ok (.miss key k c)) (.ok (.miss key k (c.gathered thread)))
  | refused {f g : Fault} (hfg : f.Gathers g) (hf : f.Within known) :
    StartsGather known thread (.error f) (.error g)

/-- Whoever has set a mark, the refusal becomes that for being computed by this thread. -/
theorem Request.fault_gathers (r : Request) (label : Label) (owner marker : Thread) :
    (r.fault (if marker = owner then .reentrant label else .busy label)).Gathers
      (r.fault (.reentrant label)) := by
  unfold fault
  split
  · split
    · exact .same _
    · exact .conflict label _
  · exact .same _

namespace StableCache

variable {c : StableCache}

/-- Whoever asks, and whoever has set the marks, a request is answered alike. -/
theorem start_gathers (hc : (Resource.stable c).Within known) (owner : Thread) {r : Request}
    (hr : r.key.Within known) :
    StartsGather known thread (c.start owner r) ((c.gathered thread).start thread r) := by
  have hread := c.guard.yields_allow hr .read
  have hwrite := c.guard.yields_allow hr .write
  have hspelled := r.yields_spelled hr
  unfold start reserve
  rw [show (c.gathered thread).guard = c.guard from rfl,
    show (c.gathered thread).slots = c.slots from rfl,
    show (c.gathered thread).pending.get? = fun k => (c.pending.get? k).map fun _ => thread from
      funext fun k => Table.get?_mapValues ..]
  cases hfree : c.guard.allow .read r with
  | error f => exact .refused (.same f) (hread.fault f hfree)
  | ok u =>
    cases hk : r.index with
    | error f => exact .refused (.same f) (Fault.within_of_none (r.keyless_index f hk))
    | ok k =>
      rw [ok_bind, ok_bind, ok_bind, ok_bind]
      cases hstored : c.slots.get? k with
      | some v => exact .hit (hc.stored k v hstored) ⟨hc.content, hc.stored⟩
      | none =>
        dsimp only
        cases hfree' : c.guard.allow .write r with
        | error f => exact .refused (.same f) (hwrite.fault f hfree')
        | ok u =>
          rw [ok_bind, ok_bind]
          cases hmark : c.pending.get? k with
          | some marker =>
            have hshown : (r.fault (.reentrant c.label)).Within known :=
              r.within_fault hr fun shown hshown key hkey => by cases hkey; exact hshown
            have hgathers := r.fault_gathers c.label owner marker
            dsimp only [Option.map_some]
            -- in the gathered cache the mark is that of the thread which asks
            rw [if_pos rfl]
            exact .refused hgathers fun key hkey => hshown key (hgathers.key?_eq.trans hkey)
          | none =>
            dsimp only [Option.map_none]
            rw [ok_bind, ok_bind]
            have hinserted := c.pending.mapValues_insert (fun _ => thread) k owner
            cases hshown : r.spelled with
            | error f => exact .refused (.same f) (hspelled.fault f hshown)
            | ok shown =>
              have hmiss : StartsGather known thread _ _ :=
                .miss (k := k) (c := { c with pending := c.pending.insert k owner })
                  (hspelled.value shown hshown) ⟨hc.content, hc.stored⟩
              rw [gathered, hinserted] at hmiss
              exact hmiss

/-- The end of a computation is the same for a cache whoever has set the marks. -/
theorem finish_gathers (thread : Thread) (hc : (Resource.stable c).Within known) {key : Spelled}
    (hkey : key.value.Within known) (k : Key) {outcome outcome' : Except Fault Value}
    (houtcome : OutcomesGather known outcome outcome') :
    ((c.gathered thread).finish key k outcome').cache =
        (c.finish key k outcome).cache.gathered thread ∧
      ((c.gathered thread).finish key k outcome').refusals = (c.finish key k outcome).refusals ∧
      OutcomesGather known (c.finish key k outcome).outcome
        ((c.gathered thread).finish key k outcome').outcome ∧
      (Resource.stable (c.finish key k outcome).cache).Within known := by
  have hwrite := c.guard.yields_allow (r := key.request) hkey .write
  have herased := c.pending.mapValues_erase (fun _ => thread) k
  unfold finish
  rw [show (c.gathered thread).guard = c.guard from rfl]
  cases hfree : c.guard.allow .write key.request with
  | error f =>
    have hf : OutcomesGather known (.error f) (.error f) := .fault (.same f) (hwrite.fault f hfree)
    cases houtcome with
    | value => exact ⟨rfl, rfl, hf, hc⟩
    | fault => exact ⟨rfl, rfl, hf, hc⟩
  | ok u =>
    cases houtcome with
    | fault hfg hf =>
      refine ⟨?_, rfl, .fault hfg hf, ⟨hc.content, hc.stored⟩⟩
      exact congrArg (StableCache.mk c.guard c.slots · c.hits c.misses) herased.symm
    | @value v hv =>
      have hstored (x : Key) (w : Value) (hw : (c.deposit k v).slots.get? x = some w) :
          w.Within known := by
        rw [get?_slots_deposit] at hw
        split at hw
        · cases hw
          cases hfound : c.slots.get? k with
          | none => exact hv
          | some stored => exact hc.stored k stored hfound
        · exact hc.stored x w hw
      refine ⟨?_, rfl, .value ?_, ⟨hc.content, hstored⟩⟩
      · exact congrArg (StableCache.mk c.guard (c.slots.insertIfNew k v) · c.hits (c.misses + 1))
          herased.symm
      · cases hfound : (c.deposit k v).slots.get? k with
        | none => exact hv
        | some stored => exact hstored k stored hfound

end StableCache

namespace ValueCache

variable {c : ValueCache} {r : Request}

/-- Whether the answer of a value cache refers to known addresses only. -/
def AnswerWithin (known : Set Nat) : Lookup ValueCache → Prop
  | .hit v c => v.Within known ∧ (Resource.value c).Within known
  | .miss key _ c => key.value.Within known ∧ (Resource.value c).Within known

theorem yields_start (hc : (Resource.value c).Within known) (hr : r.key.Within known) :
    Yields known (AnswerWithin known) (c.start r) := by
  refine (c.guard.yields_allow hr .write).bind fun _ _ =>
    (Yields.keyless r.keyless_index).bind fun k _ => ?_
  cases hstored : c.slots.get? k with
  | some v => exact .ok ⟨hc.stored k v hstored, hc.content, hc.stored⟩
  | none =>
    exact (r.yields_spelled hr).bind fun shown hshown => .ok ⟨hshown, hc.content, hc.stored⟩

theorem yields_openStored (hc : (Resource.value c).Within known) (hr : r.key.Within known) :
    Yields known (fun found => found.1.Within known ∧ (Resource.value found.2).Within known)
      (c.openStored r) := by
  refine (c.guard.yields_allow hr .read).bind fun _ _ =>
    (Yields.keyless r.keyless_index).bind fun k _ => ?_
  cases hstored : c.slots.get? k with
  | some v => exact .ok ⟨hc.stored k v hstored, hc.content, hc.stored⟩
  | none => exact .quiet (r.key?_absent c.label)

theorem within_deposit (hc : (Resource.value c).Within known) (k : Key) {v : Value}
    (hv : v.Within known) : (Resource.value (c.deposit k v)).Within known := by
  refine ⟨hc.content, fun x w hw => ?_⟩
  rw [show (Resource.value (c.deposit k v)).slots = c.slots.insert k v from rfl,
    Table.get?_insert] at hw
  split at hw
  · cases hw
    exact hv
  · exact hc.stored x w hw

end ValueCache

/-! ### Descriptions of faults -/

theorem Program.gathered_describing (f : Fault) (next : Program) :
    (Program.describing f next).gathered thread = .describing f (next.gathered thread) := by
  unfold describing
  split <;> rfl

/-- A dictionary can be made of entries whose keys are texts. -/
theorem Dict.exists_ofList {entries : List (Value × Value)}
    (h : ∀ e ∈ entries, ∃ name, e.1 = .text name) : ∃ d, Dict.ofList entries = .ok d := by
  have hfold (d : Dict) : ∃ d', entries.foldlM (fun d e => d.put e.1 e.2) d = .ok d' := by
    induction entries generalizing d with
    | nil => exact ⟨d, rfl⟩
    | cons e rest ih =>
      obtain ⟨name, hname⟩ := h e List.mem_cons_self
      rw [List.foldlM_cons, hname]
      exact ih (fun e he => h e (List.mem_cons_of_mem _ he)) _
  exact hfold ∅

/-- A fault can be described. -/
theorem Script.exists_ofList_describe (f : Fault) : ∃ d, Dict.ofList (describe f) = .ok d := by
  refine Dict.exists_ofList ?_
  unfold describe
  cases f.key? <;> simp

/-! ### Machines -/

/-- The frame when everything is done on one thread. -/
def Frame.gathered (thread : Thread) : Frame → Frame
  | .bind next => .bind fun v => (next v).gathered thread
  | .attempt kinds handler => .attempt kinds fun f => (handler f).gathered thread
  | .thread _ => .thread thread
  | frame => frame

/-- Whether a frame that refers to known addresses only goes on with an unconfined program. -/
inductive Frame.Unconfined (known : Set Nat) : Frame → Prop where
  | bind {next : Value → Program}
    (hnext : ∀ known', known ⊆ known' → ∀ v, v.Within known' → (next v).Unconfined known') :
    Unconfined known (.bind next)
  | attempt {next : Program} {kinds : List Kind} {handler : Fault → Program}
    (hkinds : kinds.any Kind.reentrant.isA = true → kinds.any Kind.borrow.isA = true)
    (hhandler : Discards next handler) (hnext : next.Unconfined known) :
    Unconfined known (.attempt kinds handler)
  | thread (back : Thread) : Unconfined known (.thread back)
  | timer (label : String) : Unconfined known (.timer label)
  | release (id : Nat) (mode : Mode) : Unconfined known (.release id mode)
  | computing (id : Nat) {key : Spelled} (hkey : key.value.Within known) (k : Key) :
    Unconfined known (.computing id key k)
  | storing (id : Nat) (k : Key) : Unconfined known (.storing id k)

theorem Frame.Unconfined.mono {frame : Frame} (h : frame.Unconfined known) (hsub : known ⊆ known') :
    frame.Unconfined known' := by
  cases h with
  | bind hnext => exact .bind fun more hmore => hnext more (hsub.trans hmore)
  | attempt hkinds hhandler hnext => exact .attempt hkinds hhandler (hnext.mono hsub)
  | thread back => exact .thread back
  | timer label => exact .timer label
  | release id mode => exact .release id mode
  | computing id hkey k => exact .computing id (hkey.mono hsub) k
  | storing id k => exact .storing id k

/-- Whether a control is the same when everything is done on one thread, but for the fault that it
may raise. -/
inductive Control.Gathers (thread : Thread) (known : Set Nat) : Control → Control → Prop where
  | eval {p : Program} (hp : p.Unconfined known) :
    Gathers thread known (.eval p) (.eval (p.gathered thread))
  | give {v : Value} (hv : v.Within known) : Gathers thread known (.give v) (.give v)
  | raise {f g : Fault} (hfg : f.Gathers g) (hf : f.Within known) :
    Gathers thread known (.raise f) (.raise g)

namespace Machine

/-- Whether an unconfined machine becomes another one when everything is done on one thread.  Both
are at the same point of the same programs.  A fault that a handler has caught may be described
differently, but what the handler goes on with is the same. -/
inductive Gathers (thread : Thread) : Machine → Machine → Prop where
  | aligned {known : Set Nat} {control control' : Control} {stack : List Frame} {s t : Session}
    (hcontrol : control.Gathers thread known control')
    (hstack : ∀ frame ∈ stack, frame.Unconfined known) (hsession : s.Gathers thread known t) :
    Gathers thread ⟨control, stack, s⟩ ⟨control', stack.map (·.gathered thread), t⟩
  /-- A handler is about to have its fault described. -/
  | handling {known : Set Nat} {f g : Fault} {next : Program} {stack : List Frame} {s t : Session}
    (hfg : f.Gathers g) (hnext : next.Unconfined known)
    (hstack : ∀ frame ∈ stack, frame.Unconfined known) (hsession : s.Gathers thread known t) :
    Gathers thread ⟨.eval (.describing f next), stack, s⟩
      ⟨.eval (.describing g (next.gathered thread)), stack.map (·.gathered thread), t⟩
  /-- The description is about to be made. -/
  | describing {known : Set Nat} {f g : Fault} {next : Program} {stack : List Frame} {s t : Session}
    (hnext : next.Unconfined known)
    (hstack : ∀ frame ∈ stack, frame.Unconfined known) (hsession : s.Gathers thread known t) :
    Gathers thread
      ⟨.eval (Script.memory (.newDict (Script.describe f))), .bind (fun _ => next) :: stack, s⟩
      ⟨.eval (Script.memory (.newDict (Script.describe g))),
        .bind (fun _ => next.gathered thread) :: stack.map (·.gathered thread), t⟩
  /-- The description is there, and its address is not known. -/
  | described {known : Set Nat} {v : Value} {next : Program} {stack : List Frame} {s t : Session}
    (hnext : next.Unconfined known)
    (hstack : ∀ frame ∈ stack, frame.Unconfined known) (hsession : s.Gathers thread known t) :
    Gathers thread ⟨.give v, .bind (fun _ => next) :: stack, s⟩
      ⟨.give v, .bind (fun _ => next.gathered thread) :: stack.map (·.gathered thread), t⟩

variable {stack : List Frame} {s t : Session} {m n : Machine}

/-! ### One step -/

theorem gathers_refuse (hstack : ∀ frame ∈ stack, frame.Unconfined known)
    (h : s.Gathers thread known t) {f g : Fault} (hfg : f.Gathers g) (hf : f.Within known) :
    (refuse f stack s).Gathers thread (refuse g (stack.map (·.gathered thread)) t) :=
  .aligned (.raise hfg hf) hstack (h.report hfg)

theorem gathers_reply (hstack : ∀ frame ∈ stack, frame.Unconfined known)
    {r r' : Except Fault Value × Session}
    (h : RepliesAlike (Session.Gathers thread) known r r') :
    (reply stack r).Gathers thread (reply (stack.map (·.gathered thread)) r') := by
  obtain ⟨known', hsub, hreply, hyields, hsession⟩ := h
  have hstack' : ∀ frame ∈ stack, frame.Unconfined known' := fun frame hframe =>
    (hstack frame hframe).mono hsub
  obtain ⟨x, s⟩ := r
  obtain ⟨y, t⟩ := r'
  obtain rfl : y = x := hreply
  cases y with
  | ok v => exact .aligned (.give (hyields.value v rfl)) hstack' hsession
  | error f => exact gathers_refuse hstack' hsession (.same f) (hyields.fault f rfl)

theorem gathers_unsuitable (hstack : ∀ frame ∈ stack, frame.Unconfined known)
    (h : s.Gathers thread known t) :
    (refuse Session.unsuitable stack s).Gathers thread
      (refuse Session.unsuitable (stack.map (·.gathered thread)) t) :=
  gathers_refuse hstack h (.same _) (Fault.within_of_none rfl)

section

variable (hstack : ∀ frame ∈ stack, frame.Unconfined known) (h : s.Gathers thread known t)

include hstack h

theorem gathers_get (id : Nat) {key : Value} (hkey : key.Within known) {compute : Value → Program}
    (hcompute : (compute key).Unconfined known) :
    (get id key compute stack s).Gathers thread
      (get id key (fun v => (compute v).gathered thread) (stack.map (·.gathered thread)) t) := by
  unfold get
  rw [h.getElem?_resources]
  cases hfound : s.resources[id]? with
  | none => exact gathers_unsuitable hstack h
  | some r =>
    have hr := h.within hfound
    cases r with
    | cell => exact gathers_unsuitable hstack h
    | stable c =>
      dsimp only [Option.map_some, Resource.gathered]
      unfold getStable
      rw [h.thread_eq, h.request_eq hkey]
      have hstart : StartsGather known thread _ _ :=
        c.start_gathers hr s.thread (r := s.request key) hkey
      generalize c.start s.thread (s.request key) = x at hstart
      generalize (c.gathered thread).start thread (s.request key) = y at hstart
      cases hstart with
      | refused hfg hf => exact gathers_refuse hstack h hfg hf
      | hit hv hc => exact .aligned (.give hv) hstack (h.setResource id hc)
      | miss hshown hc =>
        exact .aligned (.eval hcompute)
          (List.forall_mem_cons.mpr ⟨.computing id hshown _, hstack⟩)
          ((h.setResource id hc).log _)
    | value c =>
      dsimp only [Option.map_some, Resource.gathered]
      unfold getValue
      rw [h.request_eq hkey]
      have hstart := c.yields_start (r := s.request key) hr hkey
      cases hanswer : c.start (s.request key) with
      | error f => exact gathers_refuse hstack h (.same f) (hstart.fault f hanswer)
      | ok answer =>
        have hwithin := hstart.value answer hanswer
        cases answer with
        | hit v c =>
          exact .aligned (.eval (.copy hwithin.1))
            (List.forall_mem_cons.mpr ⟨.release id .write, hstack⟩) (h.setResource id hwithin.2)
        | miss shown k c =>
          exact .aligned (.eval hcompute)
            (List.forall_mem_cons.mpr
              ⟨.storing id k, List.forall_mem_cons.mpr ⟨.release id .write, hstack⟩⟩)
            ((h.setResource id hwithin.2).log _)

theorem gathers_peek (id : Nat) {key : Value} (hkey : key.Within known) :
    (peek id key stack s).Gathers thread (peek id key (stack.map (·.gathered thread)) t) := by
  unfold peek
  rw [h.getElem?_resources]
  cases hfound : s.resources[id]? with
  | none => exact gathers_unsuitable hstack h
  | some r =>
    have hr := h.within hfound
    cases r with
    | cell => exact gathers_unsuitable hstack h
    | stable c =>
      dsimp only [Option.map_some, Resource.gathered]
      rw [h.request_eq hkey]
      exact gathers_reply hstack
        (h.replies (StableCache.yields_peek (r := s.request key) hkey hr.stored))
    | value c =>
      dsimp only [Option.map_some, Resource.gathered]
      rw [h.request_eq hkey]
      have hopen := c.yields_openStored (r := s.request key) hr hkey
      cases hanswer : c.openStored (s.request key) with
      | error f => exact gathers_refuse hstack h (.same f) (hopen.fault f hanswer)
      | ok found =>
        have hwithin := hopen.value found hanswer
        exact .aligned (.eval (.copy hwithin.1))
          (List.forall_mem_cons.mpr ⟨.release id .read, hstack⟩) (h.setResource id hwithin.2)

theorem gathers_copy {v : Value} (hv : v.Within known) :
    (copy v stack s).Gathers thread (copy v (stack.map (·.gathered thread)) t) := by
  have hmade (value : Nat → Value) {c : Container} (hc : c.Within known)
      (hvalue : ∀ a, (value a).Within {a}) :=
    gathers_reply hstack (h.replies_memory (h.memory.replies_allocate value hc hvalue))
  have hat {a : Nat} (ha : a ∈ known) {w : Value} (hw : w = .list a ∨ w = .dict a ∨ w = .object a) :
      (copy w stack s).Gathers thread (copy w (stack.map (·.gathered thread)) t) := by
    obtain ⟨c, hm, hn, hc⟩ := h.memory.contents a ha
    rcases hw with rfl | rfl | rfl <;> (
      unfold copy
      dsimp only
      rw [hm, hn]
      cases c with
      | list items => exact hmade .list (c := .list items) hc fun _ => rfl
      | dict d => exact hmade .dict (c := .dict d) hc fun _ => rfl
      | object payload copier =>
        cases copier with
        | none => exact hmade .object (c := .object payload none) hc fun _ => rfl
        | some code =>
          exact .aligned (.eval (.invoke ⟨hc, fun _ h => (nomatch h), fun _ h => nomatch h⟩))
            hstack h)
  cases v with
  | list a => exact hat hv (.inl rfl)
  | dict a => exact hat hv (.inr (.inl rfl))
  | object a => exact hat hv (.inr (.inr rfl))
  | _ => exact .aligned (.give hv) hstack h

theorem gathers_time (label : String) (enabled : Option Bool) {body : Program}
    (hbody : body.Unconfined known) :
    (time label enabled body stack s).Gathers thread
      (time label enabled (body.gathered thread) (stack.map (·.gathered thread)) t) := by
  have hflag : Keyless (enabled.elim s.environment.timing .ok) := by
    cases enabled with
    | none => exact s.environment.keyless_timing
    | some b => exact .ok b
  unfold time
  rw [h.environment_eq]
  cases henabled : enabled.elim s.environment.timing .ok with
  | error f => exact gathers_refuse hstack h (.same f) (Fault.within_of_none (hflag f henabled))
  | ok b =>
    cases b with
    | true => exact .aligned (.eval hbody) (List.forall_mem_cons.mpr ⟨.timer label, hstack⟩) h
    | false => exact .aligned (.eval hbody) hstack h

theorem gathers_invoke (code : Nat) {call : Call} (hcall : call.Within known) :
    (invoke code call stack s).Gathers thread
      (invoke code call (stack.map (·.gathered thread)) t) := by
  unfold invoke
  rw [h.getElem?_code]
  cases hfound : s.code[code]? with
  | none => exact gathers_unsuitable hstack h
  | some c =>
    have hc := h.unconfined.code c (Array.mem_of_getElem? hfound)
    cases c with
    | body run => exact .aligned (.eval (hc known subset_rfl call hcall)) hstack h
    | hook => exact hc.elim

theorem gathers_reach (name : String) {next : Place → Program}
    (hnext : ∀ place, (next place).Unconfined known) :
    (begin (.reach (.named name) next) stack s).Gathers thread
      (begin (.reach (.named name) fun place => (next place).gathered thread)
        (stack.map (·.gathered thread)) t) := by
  have hunknown : (refuse (.unknown name) stack s).Gathers thread
      (refuse (.unknown name) (stack.map (·.gathered thread)) t) :=
    gathers_refuse hstack h (.same _) (Fault.within_of_none rfl)
  rw [begin, begin]
  unfold Session.locate
  dsimp only
  rw [h.names_eq]
  cases hname : s.names.get? name with
  | none => exact hunknown
  | some handle =>
    have hhandle := h.unconfined.names name handle hname
    cases handle with
    | resource | «scoped» => exact .aligned (.eval (hnext _)) hstack h
    | providers => exact hunknown
    | confined | override => exact hhandle.elim

theorem gathers_begin {p : Program} (hp : p.Unconfined known) :
    (begin p stack s).Gathers thread
      (begin (p.gathered thread) (stack.map (·.gathered thread)) t) := by
  cases hp with
  | done hv => exact .aligned (.give hv) hstack h
  | fail hf => exact .aligned (.raise (.same _) hf) hstack h
  | perform hc => exact gathers_reply hstack (h.perform hc)
  | bind hfirst hnext =>
    exact .aligned (.eval hfirst) (List.forall_mem_cons.mpr ⟨.bind hnext, hstack⟩) h
  | attempt hbody hkinds hhandler hnext =>
    exact .aligned (.eval hbody)
      (List.forall_mem_cons.mpr ⟨.attempt hkinds hhandler hnext, hstack⟩) h
  | @on _ owner body hbody =>
    rw [Program.gathered, begin, begin, h.thread_eq]
    exact .aligned (.eval hbody) (List.forall_mem_cons.mpr ⟨.thread s.thread, hstack⟩)
      (h.setThread owner)
  | timed hbody => exact gathers_time hstack h _ _ hbody
  | reach hnext => exact gathers_reach hstack h _ hnext
  | @view _ place mode key body hkey hbody =>
    rw [Program.gathered, begin, begin, openView, openView]
    rcases h.openView place.id mode hkey with ⟨f, hs, ht, hf⟩ | ⟨v, s', t', hs, ht, hv, hopen⟩
    · rw [hs, ht]
      exact gathers_refuse hstack h (.same f) hf
    · rw [hs, ht]
      exact .aligned (.eval (hbody known subset_rfl v hv))
        (List.forall_mem_cons.mpr ⟨.release place.id mode, hstack⟩) hopen
  | get hkey hcompute => exact gathers_get hstack h _ hkey hcompute
  | peek hkey => exact gathers_peek hstack h _ hkey
  | copy hv => exact gathers_copy hstack h hv
  | @store _ body next hbody hnext =>
    have hadded := h.addCode (c := .body body) hbody
    rw [Program.gathered, begin, begin]
    dsimp only [Session.addCode]
    rw [h.size_code]
    exact .aligned (.eval (hnext _)) hstack hadded
  | @locate _ source next hnext =>
    rw [Program.gathered, begin, begin, h.codeAt_eq]
    cases hfound : s.codeAt source with
    | error f =>
      exact gathers_refuse hstack h (.same f)
        (Fault.within_of_none (s.keyless_codeAt source f hfound))
    | ok code => exact .aligned (.eval (hnext code)) hstack h
  | invoke hcall => exact gathers_invoke hstack h _ hcall

theorem gathers_finish (id : Nat) {key : Spelled} (hkey : key.value.Within known) (k : Key)
    {outcome outcome' : Except Fault Value} (houtcome : OutcomesGather known outcome outcome') :
    (finish id key k outcome stack s).Gathers thread
      (finish id key k outcome' (stack.map (·.gathered thread)) t) := by
  unfold finish
  rw [h.getElem?_resources]
  cases hfound : s.resources[id]? with
  | none => exact gathers_unsuitable hstack h
  | some r =>
    have hr := h.within hfound
    cases r with
    | cell | value => exact gathers_unsuitable hstack h
    | stable c =>
      obtain ⟨hcache, hrefusals, hfinish, hwithin⟩ := c.finish_gathers thread hr hkey k houtcome
      have hset := (h.setResource id hwithin).foldl_report (c.finish key k outcome).refusals
      dsimp only [Option.map_some, Resource.gathered]
      rw [hcache, hrefusals]
      generalize (c.finish key k outcome).outcome = x at hfinish
      generalize ((c.gathered thread).finish key k outcome').outcome = y at hfinish
      cases hfinish with
      | value hv => exact .aligned (.give hv) hstack hset
      | fault hfg hf => exact .aligned (.raise hfg hf) hstack hset

theorem gathers_deposit (id : Nat) (k : Key) {v : Value} (hv : v.Within known) :
    (deposit id k v stack s).Gathers thread
      (deposit id k v (stack.map (·.gathered thread)) t) := by
  unfold deposit
  rw [h.getElem?_resources]
  cases hfound : s.resources[id]? with
  | none => exact gathers_unsuitable hstack h
  | some r =>
    have hr := h.within hfound
    cases r with
    | cell | stable => exact gathers_unsuitable hstack h
    | value c =>
      exact .aligned (.eval (.copy hv)) hstack (h.setResource id (c.within_deposit hr k hv))

theorem gathers_resume {frame : Frame} (hframe : frame.Unconfined known) {v : Value}
    (hv : v.Within known) :
    (resume v frame stack s).Gathers thread
      (resume v (frame.gathered thread) (stack.map (·.gathered thread)) t) := by
  cases hframe with
  | bind hnext => exact .aligned (.eval (hnext known subset_rfl v hv)) hstack h
  | attempt => exact .aligned (.give hv) hstack h
  | thread back => exact .aligned (.give hv) hstack (h.setThread back)
  | timer label => exact .aligned (.give hv) hstack (h.log _)
  | release id mode => exact .aligned (.give hv) hstack (h.release id mode)
  | computing id hkey k => exact gathers_finish hstack h id hkey k (.value hv)
  | storing id k => exact gathers_deposit hstack h id k hv

theorem gathers_unwind {frame : Frame} (hframe : frame.Unconfined known) {f g : Fault}
    (hfg : f.Gathers g) (hf : f.Within known) :
    (unwind f frame stack s).Gathers thread
      (unwind g (frame.gathered thread) (stack.map (·.gathered thread)) t) := by
  cases hframe with
  | bind | storing => exact .aligned (.raise hfg hf) hstack h
  | @attempt next kinds handler hkinds hhandler hnext =>
    rw [Frame.gathered, unwind, unwind, hfg.caught_eq hkinds]
    split
    · cases hhandler with
      | plain => exact .aligned (.eval hnext) hstack h
      -- from here on the two are apart until the description has been made
      | described =>
        rw [Program.gathered_describing]
        exact .handling hfg hnext hstack h
    · exact .aligned (.raise hfg hf) hstack h
  | thread back => exact .aligned (.raise hfg hf) hstack (h.setThread back)
  | timer label => exact .aligned (.raise hfg hf) hstack (h.log _)
  | release id mode => exact .aligned (.raise hfg hf) hstack (h.release id mode)
  | computing id hkey k => exact gathers_finish hstack h id hkey k (.fault hfg hf)

/-- A handler has its fault described, if that can be done. -/
theorem gathers_handling {f g : Fault} (hfg : f.Gathers g) {next : Program}
    (hnext : next.Unconfined known) :
    (begin (.describing f next) stack s).Gathers thread
      (begin (.describing g (next.gathered thread)) (stack.map (·.gathered thread)) t) := by
  unfold Program.describing
  rw [hfg.isDescribable_eq]
  split
  · exact .describing hnext hstack h
  · exact .aligned (.raise (.same _) (Fault.within_of_none rfl)) hstack h

/-- The two descriptions are made at the same address, which stays unknown. -/
theorem gathers_describing (f g : Fault) {next : Program} (hnext : next.Unconfined known) :
    (begin (Script.memory (.newDict (Script.describe f))) (.bind (fun _ => next) :: stack)
        s).Gathers thread
      (begin (Script.memory (.newDict (Script.describe g)))
        (.bind (fun _ => next.gathered thread) :: stack.map (·.gathered thread)) t) := by
  obtain ⟨d, hd⟩ := Script.exists_ofList_describe f
  obtain ⟨e, he⟩ := Script.exists_ofList_describe g
  have hmade (m : Memory) {entries : List (Value × Value)} {d : Dict}
      (hd : Dict.ofList entries = .ok d) :
      m.run (.newDict entries) = (.ok (.dict m.heap.size), (m.allocate (.dict d)).2) := by
    rw [Memory.run, hd]
    rfl
  have hrun (s : Session) (c : Memory.Command) : s.perform (.memory c) =
      ((s.memory.run c).1, { s with memory := (s.memory.run c).2 }) := rfl
  rw [Script.memory, Script.memory, begin, begin, hrun, hrun, hmade _ hd, hmade _ he, h.memory.size]
  exact .described hnext hstack (h.remember subset_rfl (h.memory.allocate_unknown _ _))

end

/-- **One step of an unconfined session and of the same session on one thread.** -/
theorem Gathers.step (h : m.Gathers thread n) : m.step.Gathers thread n.step := by
  cases h with
  | @aligned known control control' stack s t hcontrol hstack hsession =>
    cases hcontrol with
    | eval hp => exact gathers_begin hstack hsession hp
    | give hv =>
      cases stack with
      | nil => exact .aligned (.give hv) hstack hsession
      | cons frame rest =>
        obtain ⟨hframe, hrest⟩ := List.forall_mem_cons.mp hstack
        exact gathers_resume hrest hsession hframe hv
    | raise hfg hf =>
      cases stack with
      | nil => exact .aligned (.raise hfg hf) hstack hsession
      | cons frame rest =>
        obtain ⟨hframe, hrest⟩ := List.forall_mem_cons.mp hstack
        exact gathers_unwind hrest hsession hframe hfg hf
  | handling hfg hnext hstack hsession => exact gathers_handling hstack hsession hfg hnext
  | describing hnext hstack hsession => exact gathers_describing hstack hsession _ _ hnext
  | described hnext hstack hsession => exact .aligned (.eval hnext) hstack hsession

/-! ### Whole runs -/

namespace Gathers

theorem session (h : m.Gathers thread n) : ∃ known, m.session.Gathers thread known n.session := by
  cases h <;> exact ⟨_, ‹_›⟩

/-- The two machines end at the same step, if they do. -/
theorem isSome_outcome? (h : m.Gathers thread n) : n.outcome?.isSome = m.outcome?.isSome := by
  cases h with
  | @aligned _ _ _ stack _ _ hcontrol => cases hcontrol <;> cases stack <;> rfl
  | handling | describing | described => rfl

theorem run (h : m.Gathers thread n) (steps : Nat) :
    (m.run steps).Gathers thread (n.run steps) := by
  induction steps generalizing m n with
  | zero => exact h
  | succ steps ih =>
    rw [Machine.run, Machine.run, h.isSome_outcome?]
    split
    · exact h
    · exact ih h.step

end Gathers

theorem gathers_load {p : Program} (h : s.Gathers thread known t) (hp : p.Unconfined known) :
    (load p s).Gathers thread (load (p.gathered thread) t) :=
  .aligned (.eval hp) (fun _ hframe => nomatch hframe) h

end Machine

/-! ### Transcripts -/

/-- Whether two endings are the same, but that the refusal of a key for being computed on another
thread becomes that for being computed by the same one. -/
inductive Ending.Gathers : Ending → Ending → Prop where
  | same (ending : Ending) : Gathers ending ending
  | conflict (label : Label) (key : Spelled) (request : Option (Snapshot × Option String)) :
    Gathers (.fault .borrow (Fault.busy label key).message request)
      (.fault .reentrant (Fault.reentrant label key).message request)

/-- Whether two passages show the same, but for how they end. -/
structure Passage.Gathers (p q : Passage) : Prop where
  ending : p.ending.Gathers q.ending
  trace : q.trace = p.trace

/-- The session after programs that run one after the other, each for at most `fuel` steps. -/
def Session.played (fuel : Nat) (s : Session) (programs : List Program) : Session :=
  programs.foldl (fun s p => ((Machine.load p s).run fuel).session) s

namespace Machine

variable {s t : Session} {m n : Machine} {programs : List Program}

theorem Gathers.ending (h : m.Gathers thread n) :
    (m.session.ending m.outcome?).Gathers (n.session.ending n.outcome?) := by
  cases h with
  | handling | describing | described => exact .same .unfinished
  | @aligned known control control' stack s t hcontrol hstack hsession =>
    cases stack with
    | cons => cases hcontrol <;> exact .same .unfinished
    | nil =>
      cases hcontrol with
      | eval => exact .same .unfinished
      | @give v hv =>
        have hending : t.ending (some (.ok v)) = s.ending (some (.ok v)) := by
          rw [Session.ending, Session.ending, hsession.memory.written_eq hv]
        exact hending ▸ .same _
      | @raise f g hfg hf =>
        have hrequest : (f.key?.map fun key => (t.memory.snapshot key, f.operation?)) =
            f.key?.map fun key => (s.memory.snapshot key, f.operation?) := by
          cases hkey : f.key? with
          | none => rfl
          | some key =>
            rw [Option.map_some, Option.map_some, hsession.memory.snapshot_eq (hf key hkey)]
        cases hfg with
        | same =>
          have hending : t.ending (some (.error f)) = s.ending (some (.error f)) :=
            congrArg (Ending.fault f.kind f.message) hrequest
          exact hending ▸ .same _
        | conflict label key =>
          have hending : t.ending (some (.error (.reentrant label key))) =
              .fault .reentrant (Fault.reentrant label key).message
                ((Fault.busy label key).key?.map fun v =>
                  (s.memory.snapshot v, (Fault.busy label key).operation?)) :=
            congrArg (Ending.fault .reentrant (Fault.reentrant label key).message) hrequest
          exact hending ▸ .conflict label key _

theorem gathers_passage {p : Program} (h : s.Gathers thread known t) (hp : p.Unconfined known)
    (fuel : Nat) (audience : Audience) :
    (s.passage fuel audience p).1.Gathers (t.passage fuel audience (p.gathered thread)).1 := by
  have hrun := (gathers_load h hp).run fuel
  obtain ⟨known', hsession⟩ := hrun.session
  refine ⟨hrun.ending, ?_⟩
  unfold Session.passage
  dsimp only
  rw [hsession.journal_eq, h.journal_eq]

theorem gathers_transcript (h : s.Gathers thread known t)
    (hprograms : ∀ p ∈ programs, p.Unconfined ∅) (fuel : Nat) (audience : Audience) :
    List.Forall₂ Passage.Gathers (s.transcript fuel audience programs)
      (t.transcript fuel audience (programs.map (Program.gathered thread))) := by
  induction programs generalizing known s t with
  | nil => exact .nil
  | cons p rest ih =>
    obtain ⟨hp, hrest⟩ := List.forall_mem_cons.mp hprograms
    have hp' := hp.mono (Set.empty_subset known)
    obtain ⟨known', hsession⟩ := ((gathers_load h hp').run fuel).session
    exact .cons (gathers_passage h hp' fuel audience) (ih hsession hrest)

theorem gathers_played (h : s.Gathers thread known t) (hprograms : ∀ p ∈ programs, p.Unconfined ∅)
    (fuel : Nat) : ∃ known, (s.played fuel programs).Gathers thread known
      (t.played fuel (programs.map (Program.gathered thread))) := by
  induction programs generalizing known s t with
  | nil => exact ⟨known, h⟩
  | cons p rest ih =>
    obtain ⟨hp, hrest⟩ := List.forall_mem_cons.mp hprograms
    have hrun := (gathers_load h (hp.mono (Set.empty_subset known))).run fuel
    obtain ⟨known', hsession⟩ := hrun.session
    exact ih hsession hrest

theorem gathers_start (thread : Thread) (audience : Audience)
    (environment : List (String × Option String)) :
    (Session.start audience environment).Gathers thread ∅
      { Session.start audience environment with thread } where
  eq := by simp [Session.gathered, Session.start]
  memory := ⟨rfl, rfl, rfl, fun _ h => h.elim, fun _ _ h => nomatch h⟩
  unconfined := by
    refine ⟨fun _ h => ?_, fun _ h => ?_, fun _ _ h => nomatch h⟩
    · exact absurd h (Array.not_mem_empty _)
    · exact absurd h (Array.not_mem_empty _)

/-- **Threads matter to confined objects only.**  Take a session whose programs use cells, stable
caches, value caches and scoped caches, but no confined cache, no override and not the session's own
cache; in which a handler that catches the refusal of a key for being computed by the same thread
also catches that by another thread; and in which no handler makes use of what it has caught.  Do
everything on one thread instead of on the threads that the programs name.  Then, after any number
of steps of any of the programs, the two are at the same point of the same program, with the same
frames to go back to, and in the same state, but for the owners of marks and the descriptions of
faults that nobody refers to.  So the transcripts show the same marks and events, and each program
ends with the same value or fault, but that a program which ends with the refusal of a key that
another thread is computing is refused it for being computed by the same thread. -/
theorem only_conflicts_tell_threads (thread : Thread) (audience : Audience)
    (environment : List (String × Option String)) (fuel : Nat)
    (unconfined : ∀ p ∈ programs, p.Unconfined ∅) :
    (∀ before p after, programs = before ++ p :: after → ∀ steps,
      ((load p ((Session.start audience environment).played fuel before)).run steps).Gathers thread
        ((load (p.gathered thread)
          ({ Session.start audience environment with thread }.played fuel
            (before.map (Program.gathered thread)))).run steps)) ∧
      List.Forall₂ Passage.Gathers
        ((Session.start audience environment).transcript fuel audience programs)
        ({ Session.start audience environment with thread }.transcript fuel audience
          (programs.map (Program.gathered thread))) := by
  have hstart := gathers_start thread audience environment
  refine ⟨?_, gathers_transcript hstart unconfined fuel audience⟩
  rintro before p after rfl steps
  obtain ⟨hbefore, hafter⟩ := List.forall_mem_append.mp unconfined
  obtain ⟨known, hplayed⟩ := gathers_played hstart hbefore fuel
  have hp := (List.forall_mem_cons.mp hafter).1.mono (Set.empty_subset known)
  exact (gathers_load hplayed hp).run steps

/-- Asks the cache `c` for a key, which is computed as a number. -/
def asksFor (key : String) : Script.Term :=
  Script.get (.named "c") (Script.literal (.text key)) (Script.literal (.int 1))

/-- A computation asks the cache `c` for its own key on another thread, and goes on when it is
refused. -/
def asksAndGoesOn : Script.Term :=
  Script.get (.named "c") (Script.literal (.text "k"))
    (Script.on "A" (Script.attempt [.borrow] (asksFor "k") (Script.literal (.text "refused"))))

/-- A computation asks the cache `c` for its own key on another thread. -/
def asksAcross : Script.Term :=
  Script.get (.named "c") (Script.literal (.text "j")) (Script.on "A" (asksFor "j"))

/-- Asks for a view of the cell `x` on another thread while a view for writing is active. -/
def viewsAcross : Script.Term :=
  Script.within (.named "x") .write (Script.literal .null)
    (Script.on "A" (Script.within (.named "x") .read (Script.literal .null) Script.key))

/-- Stores a value in the scoped cache `s` on one thread and retrieves it on another one. -/
def storesAcross : Script.Term :=
  Script.sequence
    [Script.on "A" (Script.populate (.named "s") (Script.literal (.text "k"))
      (Script.list [Script.key])),
    Script.on "B" (Script.inspectKey .retrieve (.named "s") (Script.literal (.text "k")))]

/-- Has a value of the value cache `v` computed on one thread and copied on another one. -/
def copiesAcross : Script.Term :=
  Script.sequence
    [Script.on "A"
      (Script.get (.named "v") (Script.literal (.text "k")) (Script.list [Script.key])),
    Script.on "B" (Script.get (.named "v") (Script.literal (.text "k")) Script.key)]

/-- Makes a cache of each sort and a cell, and uses them on several threads. -/
def termsAcross : List Script.Term :=
  [Script.create (.stable "c" none), Script.create (.value "v" none),
    Script.create (.scoped "s" none none), Script.createCell "x" (Script.literal (.int 0)) none,
    asksAndGoesOn, asksAcross, viewsAcross, storesAcross, copiesAcross]

theorem unconfined_termsAcross : ∀ t ∈ termsAcross, t.Unconfined := by
  have hstable : (Script.create (.stable "c" none)).Unconfined := .create trivial
  have hvalue : (Script.create (.value "v" none)).Unconfined := .create trivial
  have hscoped : (Script.create (.scoped "s" none none)).Unconfined := .create trivial
  have hzero : (Script.literal (.int 0)).Unconfined := .literal trivial
  have hcell : (Script.createCell "x" (Script.literal (.int 0)) none).Unconfined :=
    .createCell "x" hzero none
  have hasks (key : String) : (asksFor key).Unconfined := .get (.literal trivial) (.literal trivial)
  have hgoesOn : asksAndGoesOn.Unconfined := .get (.literal trivial)
    (.on "A" (.attempt (fun _ => rfl) (hasks "k") (.literal trivial)))
  have hacross : asksAcross.Unconfined := .get (.literal trivial) (.on "A" (hasks "j"))
  have hnull : (Script.literal .null).Unconfined := .literal trivial
  have hviews : viewsAcross.Unconfined := .within .write hnull (.on "A" (.within .read hnull .key))
  have hkey : (Script.literal (.text "k")).Unconfined := .literal trivial
  have hlist : (Script.list [Script.key]).Unconfined := .list (List.forall_mem_singleton.mpr .key)
  have hstores : storesAcross.Unconfined := .sequence <| List.forall_mem_cons.mpr
    ⟨.on "A" (.populate hkey hlist),
      List.forall_mem_singleton.mpr (.on "B" (.inspectKey (fun _ _ _ h => h) hkey))⟩
  have hcopies : copiesAcross.Unconfined := .sequence <| List.forall_mem_cons.mpr
    ⟨.on "A" (.get hkey hlist), List.forall_mem_singleton.mpr (.on "B" (.get hkey .key))⟩
  simp only [termsAcross, List.forall_mem_cons]
  exact ⟨hstable, hvalue, hscoped, hcell, hgoesOn, hacross, hviews, hstores, hcopies,
    fun _ h => nomatch h⟩

theorem only_conflicts_tell_threads_termsAcross :
    List.Forall₂ Passage.Gathers
      ((Session.start .events []).transcript 60 .events (Script.programs termsAcross))
      ({ Session.start .events [] with thread := "main" }.transcript 60 .events
        ((Script.programs termsAcross).map (Program.gathered "main"))) :=
  (only_conflicts_tell_threads "main" .events [] 60
    (Script.unconfined_programs unconfined_termsAcross)).2

example : ∃ label key,
    ((load (asksAcross {}) ((Session.start .events []).played 40
      [Script.create (.stable "c" none) {}, asksAndGoesOn {}])).run 40).outcome? =
        some (.error (.busy label key)) := ⟨_, _, rfl⟩

end Machine

end CheckedMemo
